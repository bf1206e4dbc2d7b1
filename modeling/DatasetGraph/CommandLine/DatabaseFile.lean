import DatasetGraph.CommandLine.DatabaseImage
import DatasetGraph.CommandLine.DatabaseName
import DatasetGraph.CommandLine.Workspace
import DatasetGraph.Store.ReadOnly

/-!
# Databases in files

The path of a database is settled before its file is looked for: a step up takes back the step
before it, whether there is a directory or not.  Only a step that cannot be taken, because it leads
through a file or is too long, cannot be taken back.

A database that is opened and not there is created, in a directory that has to be there.  A file
with at most one octet is an empty database.

Four things belong beside a database: a journal of changes that may have to be undone, a log of
changes that are still to be made, an index of that log, and a lock.  An opened database takes over
from a journal and a log, whatever they hold, and they are gone when it is closed.  One that is only
read leaves a log and its index behind.

A database is opened in steps: its file is found, it is locked, the journal and the log are taken
over, its first page is read, changes are made to go through a log if they can, and its tables are
set up.  Each step may fail, and what the steps before it have done to the files stays.
-/

namespace DatasetGraph.CommandLine

/-- Why a database cannot be opened. -/
inductive OpeningFault where
  | misnamed (fault : NameFault)
  /-- There is no such file and none can be made. -/
  | unavailable
  | unusable (fault : DatabaseFault)
  | notSetUp (fault : SetupFault)
deriving DecidableEq

/-- The wording of the fault, for a database that was named by `name`. -/
def OpeningFault.message (name : String) : OpeningFault → String
  | .misnamed fault => "sqlite error: " ++ fault.message
  | .unavailable => "sqlite error: unable to open database file: " ++ name
  | .unusable fault => "sqlite error: " ++ fault.message
  | .notSetUp fault => "migration error: " ++ fault.message

/-- A database that is open. -/
inductive Session where
  /-- It is not kept. -/
  | fleeting (store : TableStore)
  /-- It is kept in a file.  A journal is beside it that is gone after a change. -/
  | kept (location : Location) (logged journaled : Bool) (store : TableStore)
  /-- It is only read. -/
  | readOnly (store : TableStore)
  /-- It has no tables. -/
  | bare
deriving DecidableEq

/-! ## Where a database is -/

namespace Location

/-- The place of the journal of a database. -/
def journal (l : Location) : Location := l.extend "-journal"

/-- The place of the log of a database. -/
def log (l : Location) : Location := l.extend "-wal"

/-- The place of the index of the log of a database. -/
def logIndex (l : Location) : Location := l.extend "-shm"

/-- The place of the lock of a database, if it is a directory. -/
def lock (l : Location) : Location := l.extend ".lock"

/-- Whether a step is too long for a file. -/
def isTooLong (l : Location) : Bool := l.steps.any fun step => maxStep < step.utf8ByteSize

end Location

/-- The most octets that the steps of a database may take. -/
def maxSettled : Nat := 480

namespace Workspace

/-- Whether one can go on from a place: there may be something, or nothing yet. -/
def isPassable (w : Workspace) (l : Location) : Bool :=
  l.size ≤ maxSettled &&
    match w.follow ⟨l.base, []⟩ l.steps with
    | .ok _ | .error .missing => true
    | .error _ => false

/-- Settle the steps of a path. -/
def settle (w : Workspace) (l : Location) : List String → Option Location
  | [] => some l
  | step :: steps =>
    let next := l.take step
    if w.isPassable next then w.settle next steps else none

/-! ## What is there -/

/-- Whether there is something in a file, or a directory. -/
def isFilled (w : Workspace) (l : Location) : Bool :=
  match w.file? l with
  | some (.text content) => content ≠ ""
  | some _ => true
  | none => w.isDirectory l

/-- Whether a file starts with a zero octet, so that no change has to be undone by it. -/
def isSpent (w : Workspace) (l : Location) : Bool :=
  match w.file? l with
  | some (.text content) => content.toList.head? = some '\x00'
  | _ => false

/-- The least octets that the header of a log takes. -/
def minHeader : Nat := 32

/-- Whether a file is long enough for the header of a log. -/
def hasHeader (w : Workspace) (l : Location) : Bool :=
  match w.file? l with
  | some (.text content) => minHeader ≤ content.utf8ByteSize
  | some _ => true
  | none => false

/-- Whether a file can be opened and made. -/
def canOpen (w : Workspace) (l : Location) : Bool := !l.isTooLong && !w.isDirectory l

/-- Whether a file holds no database and nothing else: it has at most one octet. -/
def isBlank (w : Workspace) (l : Location) : Bool :=
  match w.file? l with
  | some (.text content) => content.utf8ByteSize ≤ 1
  | some .device => true
  | _ => false

/-- The database that a file is. -/
def image? (w : Workspace) (l : Location) : Option Image :=
  if w.isBlank l then some .blank
  else
    match w.file? l with
    | some (.text content) => Image.ofText? content
    | some (.database s logged) => some { contents := .tables s, logged }
    | some .binary | some .device | none => none

/-- Mark the database in a file as one whose changes go through a log. -/
def markLogged (w : Workspace) (l : Location) : Workspace :=
  match w.file? l with
  | some (.text content) =>
    w.put l (.text (Image.log (if w.isBlank l then Image.blankText else content)))
  | some (.database s _) => w.put l (.database s true)
  | some .binary | some .device | none => w

end Workspace

/-! ## The steps -/

/-- A step in opening a database, which may change files and may fail. -/
abbrev Opening (α : Type) := ExceptT OpeningFault (StateM Workspace) α

namespace Opening

/-- Fail because of the files. -/
def refuse {α : Type} (fault : DatabaseFault) : Opening α := throw (.unusable fault)

/-- Find the file, or make it. -/
def find (n : DatabaseName) : Opening Location := do
  let w ← get
  let some l := w.settle (startOf n.path) (stepsOf n.path) | throw .unavailable
  if l = .root then throw .unavailable
  if n.pattern.any fun path => !w.isThere path then refuse .contentless
  if w.isDirectory l then
    if n.access = .read then refuse .contentless else throw .unavailable
  if (w.file? l).isNone then
    if n.access = .create && w.isDirectory l.parent && !l.isStandardInput then
      set (w.put l (.text ""))
    else throw .unavailable
  return l

/-- Lock the database, if that takes a directory. -/
def lock (n : DatabaseName) (l : Location) : Opening Unit := do
  if n.keeper = .dotted && !n.unlocked then
    if l.lock.isTooLong then refuse .contentless
    if (← get).isThereAt l.lock then refuse .locked

/-- Take over from a journal, unless a directory says that someone is writing it.  It is of no use
for a blank database. -/
def takeJournal (n : DatabaseName) (l : Location) : Opening Unit := do
  let w ← get
  let isWritten := n.keeper = .dotted && (!n.unlocked || w.isThereAt l.lock)
  if w.isFilled l.journal && !isWritten then
    if w.isBlank l then
      if n.canReserve then set (w.erase l.journal)
    else if w.isDirectory l.journal then refuse .contentless
    else if !w.isSpent l.journal then
      if n.access = .read then refuse .readOnly else set (w.erase l.journal)

/-- Start to use a log, and use it up if the database can be changed. -/
def enterLog (n : DatabaseName) (l : Location) (fault : OpeningFault) : Opening Unit := do
  let w ← get
  if !n.canLog || !w.canOpen l.log then throw fault
  let started := if (w.file? l.log).isSome then w else w.put l.log (.text "")
  if !n.hasIndex then set (w.erase l.log)
  else if w.isDirectory l.logIndex then
    set started
    if w.hasHeader l.log then refuse .unshared
  else
    set (if n.access = .read then started.put l.logIndex .binary
      else (w.erase l.log).erase l.logIndex)

/-- Take over from a log; the result is whether there is one.  It is of no use for a blank
database. -/
def takeLog (n : DatabaseName) (l : Location) : Opening Bool := do
  let w ← get
  if !w.isFilled l.log then return false
  if w.isBlank l then
    if w.isDirectory l.log then refuse .contentless
    set (w.erase l.log)
    return false
  enterLog n l (.unusable .unaccompanied)
  return true

/-- Make a change by way of a journal, which is gone after it: the first fault is that of a journal
that cannot be made, the second that of a device, to which nothing can be written that stays. -/
def keepJournal (l : Location) (unmade unkept : OpeningFault) : Opening Unit := do
  let w ← get
  if !w.canOpen l.journal then throw unmade
  set (w.erase l.journal)
  if w.file? l = some .device then throw unkept

/-- Whether the database cannot be changed, given whether changes go through a log. -/
def isFixed (w : Workspace) (n : DatabaseName) (l : Location) (i : Image) (logging : Bool) : Bool :=
  n.isReadOnly || i.guarded || logging && n.hasIndex && w.isDirectory l.logIndex

/-- Make changes go through a log from now on. -/
def startLog (n : DatabaseName) (l : Location) (i : Image) : Opening Unit := do
  if isFixed (← get) n l i false then refuse .readOnly
  keepJournal l (.unusable .unaccompanied) (.unusable .contentless)
  modify fun w => w.markLogged l
  enterLog n l (.notSetUp (.aside .unaccompanied))

/-- Set up the tables if they are not there. -/
def setUp (n : DatabaseName) (l : Location) (i : Image) (logging : Bool) : Opening Session := do
  let w ← get
  let fixed := isFixed w n l i logging
  match i.contents with
  | .tables s => return if fixed then .readOnly s else .kept l i.logged (!logging) s
  | .bare => return .bare
  | .ahead => throw (.notSetUp .ahead)
  | .unset objects =>
    let clash := Clash.find? objects setupScript
    if let some c := clash then
      if c.wanted ∈ setupScript.head? then throw (.notSetUp (.clash c))
    if fixed then throw (.notSetUp (.unchanged .readOnly))
    if !logging then
      keepJournal l (.notSetUp (.unchanged .unaccompanied)) (.notSetUp (.aside .contentless))
    if i.damaged then throw (.notSetUp (.unchanged .malformed))
    if let some c := clash then throw (.notSetUp (.clash c))
    return .kept l i.logged false Backend.empty

/-- Read the first page, and go on from there. -/
def readPage (n : DatabaseName) (l : Location) (logging : Bool) : Opening Session := do
  let some i := (← get).image? l | refuse .notDatabase
  if i.logged && !logging && !n.frozen then enterLog n l (.unusable .unaccompanied)
  let logging := logging || i.logged && !n.frozen
  if let some fault := i.flaw then refuse fault
  if n.canLog && !logging then
    startLog n l i
    setUp n l { i with logged := true } true
  else setUp n l i logging

/-- Open the file of a database. -/
def openFile (n : DatabaseName) : Opening Session := do
  let l ← find n
  if n.frozen then readPage n l false
  else
    lock n l
    takeJournal n l
    let logging ← takeLog n l
    readPage n l logging

end Opening

/-! ## Opening and closing -/

namespace Workspace

/-- Open a database. -/
def openDatabase (w : Workspace) (n : DatabaseName) : Except OpeningFault Session × Workspace :=
  if n.isPrivate then
    (if n.isUnusable then .error (.notSetUp (.unchanged .readOnly))
      else .ok (.fleeting Backend.empty), w)
  else ((Opening.openFile n).run).run w

/-- Open the database that a text names. -/
def openNamed (w : Workspace) (name : String) : Except OpeningFault Session × Workspace :=
  match DatabaseName.ofText name with
  | .ok n => w.openDatabase n
  | .error fault => (.error (.misnamed fault), w)

/-- Close a database. -/
def close (w : Workspace) : Session → Workspace
  | .kept l logged journaled s =>
    (if journaled then w.erase l.journal else w).put l (.database s logged)
  | .fleeting _ | .readOnly _ | .bare => w

/-- What has only been read is left as it was. -/
@[simp] theorem close_readOnly (w : Workspace) (s : TableStore) : w.close (.readOnly s) = w := rfl

end Workspace

end DatasetGraph.CommandLine
