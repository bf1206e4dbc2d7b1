import DatasetGraph.CommandLine.Run
import DatasetGraph.Store.Snapshot

/-!
# The program

Reads the files that a command names, runs it and writes what it has changed.  A database is kept as
a snapshot in its file.
-/

namespace DatasetGraph.Program

open CommandLine

/-- How the program is called. -/
def usage : List String :=
  ["Usage: moma <COMMAND>",
    "",
    "Commands:",
    "  convert [--issues] <INPUT>                       print the graph of a document",
    "  validate [--lenient] <INPUT>                     check a graph against the label registry",
    "  ingest [-d <DB>] [--pg-json] [--lenient] <INPUT> store a document or a graph",
    "  query [-d <DB>] [-f <FILTER>]                    print a page of datasets",
    "  delete [-d <DB>] [--all] [<IDS>...]              delete datasets",
    "",
    "INPUT is a file, or - for the standard input.  DB is moma.db if it is not given."]

/-- What an error of the system says about a file.  One that names the file arose when it was
opened, so something on the way to it was no directory; otherwise a directory was read. -/
def faultOf : IO.Error → FileFault
  | .permissionDenied _ _ _ => .denied
  | .inappropriateType (some _) _ _ => .throughFile
  | .inappropriateType none _ _ => .isDirectory
  | _ => .missing

/-- The text of octets that are read. -/
def textOf (octets : IO ByteArray) : IO (Except FileFault String) := do
  try
    match String.fromUTF8? (← octets) with
    | some text => return .ok text
    | none => return .error .notText
  catch e => return .error (faultOf e)

/-- Read a file. -/
def readFile (path : String) : IO (Except FileFault String) := textOf (IO.FS.readBinFile path)

/-- Read a file, or the standard input if its name is a hyphen. -/
def readInput (input : String) : IO (Except FileFault String) :=
  if input = "-" then textOf (do (← IO.getStdin).readBinToEnd) else readFile input

/-- Where a path leads if every step can be taken. -/
def locationOf (path : String) : Location := (stepsOf path).foldl Location.take (startOf path)

/-- The session on an empty database. -/
def emptySession (n : DatabaseName) : Except OpeningFault Session :=
  if n.isReadOnly then .error (.notSetUp (.unchanged .readOnly))
  else .ok (.kept (locationOf n.path) true false Backend.empty)

/-- The session on a database that is there. -/
def storedSession (n : DatabaseName) (s : TableStore) : Session :=
  if n.isReadOnly then .readOnly s else .kept (locationOf n.path) true false s

/-- Open a database. -/
def openDatabase (n : DatabaseName) : IO (Except OpeningFault Session) := do
  if n.isPrivate then
    return if n.isUnusable then .error (.notSetUp (.unchanged .readOnly))
      else .ok (.fleeting Backend.empty)
  match ← readFile n.path with
  | .ok text =>
    if text.utf8ByteSize ≤ 1 then return emptySession n
    match TableStore.ofSnapshot? text with
    | some s => return .ok (storedSession n s)
    | none => return .error (.unusable .notDatabase)
  | .error .missing => return if n.access = .create then emptySession n else .error .unavailable
  | .error .notText => return .error (.unusable .notDatabase)
  | .error _ => return .error .unavailable

/-- Close a database; the result is whether it was kept if it had to be. -/
def close (n : DatabaseName) : Session → IO Bool
  | .kept _ _ _ s => do
    try
      IO.FS.writeFile n.path s.snapshot
      return true
    catch _ => return false
  | .fleeting _ | .readOnly _ | .bare => return true

/-- Print an outcome; the result is the exit code. -/
def report (o : Outcome) : IO UInt32 := do
  o.lines.forM IO.eprintln
  IO.print o.text
  return UInt32.ofNat o.code

/-- Do a job on the database that a text names. -/
def runJob (name : String) (job : Job) : IO UInt32 := do
  let unopened := fun fault => report (job.outcome (.error (.unopenable name fault)))
  match DatabaseName.ofText name with
  | .error fault => unopened (.misnamed fault)
  | .ok n =>
    match ← openDatabase n with
    | .error fault => unopened fault
    | .ok session =>
      let (result, session) := session.run job
      if ← close n session then report (job.outcome result) else unopened .unavailable

/-- Run a command. -/
def runCommand (c : Command) : IO UInt32 := do
  let input ← match c.input? with
    | some input => readInput input
    | none => pure (.ok "")
  match c.plan fun _ => input with
  | .finished outcome => report outcome
  | .onDatabase name job => runJob name job

/-- Run the command that the arguments name. -/
def run (args : List String) : IO UInt32 := do
  match Command.ofArguments args with
  | .ok c => runCommand c
  | .error .help =>
    usage.forM IO.println
    return 0
  | .error .usage =>
    usage.forM IO.eprintln
    return 2

end DatasetGraph.Program

/-- The program. -/
def main (args : List String) : IO UInt32 := DatasetGraph.Program.run args
