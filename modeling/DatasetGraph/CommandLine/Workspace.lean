import DatasetGraph.Store.Table
import DatasetGraph.Text.Form

/-!
# The files that a command works on

A workspace is a directory with files in it, and in directories below it.  A file holds text or a
database.  A path leads from directory to directory, up as well as down; one that starts with a
slash starts at the root of the system.

Of what lies outside, only what every system has is known: the directories above the workspace, the
root and the directories in it, the device `/dev/null`, which is always empty, and the names of the
standard input.
-/

namespace DatasetGraph.CommandLine

/-- Why a file cannot be read. -/
inductive FileFault where
  | missing
  | isDirectory
  /-- The path goes on behind a file. -/
  | throughFile
  /-- The path, or a step of it, is too long. -/
  | tooLong
  /-- The content is not text. -/
  | notText
  | denied
deriving DecidableEq

/-- The wording of the fault. -/
def FileFault.message : FileFault → String
  | .missing => "No such file or directory (os error 2)"
  | .isDirectory => "Is a directory (os error 21)"
  | .throughFile => "Not a directory (os error 20)"
  | .tooLong => "File name too long (os error 36)"
  | .notText => "stream did not contain valid UTF-8"
  | .denied => "Permission denied (os error 13)"

/-- What a file holds. -/
inductive File where
  | text (content : String)
  /-- A database.  Changes of a `logged` one go through a log that stands beside it while it is
  open. -/
  | database (store : TableStore) (logged : Bool)
  /-- Something else. -/
  | binary
  /-- Nothing, whatever is written to it. -/
  | device
deriving DecidableEq

/-! ## Locations -/

/-- A directory from which steps lead down. -/
inductive Base where
  /-- The directory so many levels above the workspace; on level zero, the workspace. -/
  | above (levels : Nat)
  | root
deriving DecidableEq

/-- A place for a file or a directory, named by the steps that lead there. -/
structure Location where
  base : Base
  steps : List String
deriving DecidableEq

namespace Location

/-- The workspace. -/
def workspace : Location := ⟨.above 0, []⟩

/-- The root of the system. -/
def root : Location := ⟨.root, []⟩

/-- The device that is always empty. -/
def nullDevice : Location := ⟨.root, ["dev", "null"]⟩

/-- The names of the standard input. -/
def standardInputs : List Location :=
  [⟨.root, ["dev", "stdin"]⟩, ⟨.root, ["dev", "fd", "0"]⟩, ⟨.root, ["proc", "self", "fd", "0"]⟩]

/-- The directories that every system has. -/
def systemDirectories : List Location :=
  (["bin", "boot", "dev", "etc", "home", "lib", "media", "mnt", "opt", "proc", "root", "run",
    "sbin", "srv", "sys", "tmp", "usr", "var"].map fun name => ⟨.root, [name]⟩) ++
    [⟨.root, ["dev", "fd"]⟩, ⟨.root, ["proc", "self"]⟩, ⟨.root, ["proc", "self", "fd"]⟩]

/-- Whether a place is a name of the standard input. -/
def isStandardInput (l : Location) : Bool := standardInputs.contains l

/-- The directory above; above the root is the root. -/
def parent : Location → Location
  | ⟨.above levels, []⟩ => ⟨.above (levels + 1), []⟩
  | ⟨.root, []⟩ => root
  | ⟨base, steps⟩ => ⟨base, steps.dropLast⟩

/-- Where a step of a path leads: nowhere, up, or down. -/
def take (l : Location) (step : String) : Location :=
  if step = "" ∨ step = "." then l
  else if step = ".." then l.parent
  else ⟨l.base, l.steps ++ [step]⟩

/-- The place with a longer name. -/
def extend (l : Location) (ending : String) : Location :=
  ⟨l.base, l.steps.dropLast ++ [l.steps.getLast?.getD "" ++ ending]⟩

/-- How many octets the steps take, each with a slash. -/
def size (l : Location) : Nat := l.steps.foldl (fun n step => n + step.utf8ByteSize + 1) 0

example : (((root.take "..").take "dev").take ".").take "null" = nullDevice := by decide +kernel
example : (workspace.take "..").take ".." = ⟨.above 2, []⟩ := by decide +kernel

end Location

/-! ## Paths -/

/-- The steps of a path. -/
def stepsOf (path : String) : List String := (Text.Form.split '/' path.toList).map String.ofList

/-- Where a path starts. -/
def startOf (path : String) : Location :=
  if path.toList.head? = some '/' then .root else .workspace

/-- The most octets that a step may have. -/
def maxStep : Nat := 255

/-- The most octets that a path may have. -/
def maxPath : Nat := 4095

/-- A directory, with the files below it and those that have come about elsewhere. -/
structure Workspace where
  files : List (Location × File)
deriving DecidableEq

namespace Workspace

/-- Whether there is a directory at a location. -/
def isDirectory (w : Workspace) (l : Location) : Bool :=
  l.steps.isEmpty || Location.systemDirectories.contains l ||
    w.files.any fun f => l.base = f.1.base && l.steps.isPrefixOf f.1.steps && l ≠ f.1

/-- The file at a location. -/
def file? (w : Workspace) (l : Location) : Option File :=
  if l = .nullDevice then some .device else w.files.lookup l

/-- Go on from a location by the steps of a path. -/
def follow (w : Workspace) (l : Location) : List String → Except FileFault Location
  | [] => .ok l
  | step :: steps =>
    if w.isDirectory l then
      if step.utf8ByteSize ≤ maxStep then w.follow (l.take step) steps else .error .tooLong
    else if (w.file? l).isSome then .error .throughFile
    else .error .missing

/-- Where a path leads.  The empty path leads nowhere. -/
def locate (w : Workspace) (path : String) : Except FileFault Location :=
  if path = "" then .error .missing
  else if maxPath < path.utf8ByteSize then .error .tooLong
  else w.follow (startOf path) (stepsOf path)

/-! ## Files -/

/-- Whether there is something at a location. -/
def isThereAt (w : Workspace) (l : Location) : Bool := w.isDirectory l || (w.file? l).isSome

/-- Whether a path leads to something. -/
def isThere (w : Workspace) (path : String) : Bool :=
  match w.locate path with
  | .ok l => w.isThereAt l || l.isStandardInput
  | .error _ => false

/-- The text of a file. -/
def read (w : Workspace) (path : String) : Except FileFault String := do
  let l ← w.locate path
  match w.file? l with
  | some (.text content) => return content
  | some .device => return ""
  | some (.database _ _) | some .binary => throw .notText
  | none => throw (if w.isDirectory l then .isDirectory else .missing)

/-- Remove the file at a location. -/
def erase (w : Workspace) (l : Location) : Workspace := ⟨w.files.filter fun f => f.1 ≠ l⟩

/-- Put a file at a location. -/
def put (w : Workspace) (l : Location) (f : File) : Workspace := ⟨(l, f) :: (w.erase l).files⟩

/-- Put a text at a path. -/
def putText (w : Workspace) (path content : String) : Workspace :=
  w.put ((stepsOf path).foldl Location.take .workspace) (.text content)

end Workspace

end DatasetGraph.CommandLine
