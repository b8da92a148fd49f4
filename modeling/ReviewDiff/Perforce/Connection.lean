import ReviewDiff.Host
import ReviewDiff.Perforce.Service
import ReviewDiff.Perforce.Tagged

/-!
# Perforce through its command line

A `Connection` names the Perforce program and how it reaches the server.
`Connection.serve` answers every question of `Service.interface` by running the
program and reading what it prints.
-/

namespace ReviewDiff.Perforce

/-- How to run the Perforce program.  What is not given is left to its
environment. -/
structure Connection where
  program : String
  directory : Option String := none
  address : Option String := none
  user : Option String := none
  client : Option String := none

/-- A program that asks the host and may fail the way Perforce does. -/
abbrev Command (α : Type) := ExceptT Failure (Program Host.interface) α

def ask (request : Host.Request) : Command request.Answer :=
  ExceptT.lift (Program.request (I := Host.interface) request)

namespace Connection

/-! ## Running the program -/

def options (connection : Connection) : List String :=
  let option (flag : String) : Option String → List String
    | some value => [flag, value]
    | none => []
  option "-p" connection.address ++ option "-u" connection.user ++
    option "-c" connection.client

/-- The command as messages show it, without the connection options. -/
def line (connection : Connection) (arguments : List String) : String :=
  Host.commandLine connection.program arguments

def run (connection : Connection) (arguments : List String) : Command Host.Completed := do
  match ←
      ask (.run connection.program (connection.options ++ arguments) connection.directory)
  with
  | .ok completed => return completed
  | .error cause => throw (.notInstalled connection.program cause)

def failed (connection : Connection) (arguments : List String) (completed : Host.Completed) :
    Failure :=
  .commandFailed (connection.line arguments) completed.exitCode
    (Text.trim (Utf8.decodeLossy completed.stderr))

def output (connection : Connection) (arguments : List String) : Command String := do
  let completed ← connection.run arguments
  if completed.succeeded then return Utf8.decodeLossy completed.stdout
  throw (connection.failed arguments completed)

def records (connection : Connection) (arguments : List String) : Command (List Record) := do
  return Record.readAll (← connection.output ("-ztag" :: arguments))

end Connection

/-! ## Reading records -/

/-- A revision field; `none` stands for a file that is not in the depot yet. -/
def readRevision (text : String) : Except Failure Nat :=
  if text = "none" then .ok 0
  else match Text.readNat64? text with
    | some revision => .ok revision
    | none => .error (.malformed s!"invalid revision '{text}'")

/-- The files that a described changelist lists as numbered fields. -/
def describedFiles (record : Record) : Except Failure (List FileRecord) :=
  let change := (record.get? "change").getD ""
  let paths := record.indexed "depotFile"
  let revisions := record.indexed "rev"
  let actions := record.indexed "action"
  if revisions.length ≠ paths.length || actions.length ≠ paths.length then
    .error (.malformed s!"describe of change {change} has mismatched file fields")
  else
    (paths.zip (revisions.zip actions)).mapM fun (path, text, action) => do
      return { path, revision := ← readRevision text, action, change }

def openedFile (change : String) (record : Record) : Except Failure FileRecord := do
  let revision ← match record.get? "haveRev" <|> record.get? "rev" with
    | some text => readRevision text
    | none => .ok 0
  return {
    path := (record.get? "depotFile").getD ""
    revision
    action := (record.get? "action").getD ""
    change := (record.get? "change").getD change }

/-- The changelist that a record describes.  A pending one with a `shelved` field
is shelved. -/
def changeInfo (change : String) (record : Record) : Except Failure ChangeInfo :=
  match (record.get? "status").bind ChangeStatus.ofName? with
  | none => .error (.malformed s!"change {change} has no recognizable status")
  | some status =>
      .ok
        { change := (record.get? "change").getD change
          status := if status = .pending && record.has "shelved" then .shelved else status
          user := record.get? "user"
          client := record.get? "client"
          description := (record.get? "desc").getD "" }

def fileInfo (path : String) (record : Record) : FileInfo where
  depotPath := (record.get? "depotFile").getD path
  clientFile := record.get? "clientFile"
  movedFile := record.get? "movedFile"
  headRevision := (record.get? "headRev").bind Text.readNat64?
  haveRevision := (record.get? "haveRev").bind Text.readNat64?

/-- A list of pairs with one more; an earlier value of the key is replaced. -/
def putCounter (counters : List (String × String)) (record : Record) :
    List (String × String) :=
  match record.get? "counter", record.get? "value" with
  | some name, some value => counters.filter (·.1 ≠ name) ++ [(name, value)]
  | _, _ => counters

/-- The path of the first mapping that is not an exclusion. -/
def mappedPath (records : List Record) : Option String :=
  (records.find? fun record => !record.has "unmap").bind (·.get? "path")

def saysUnknownChange (stderr : String) : Bool :=
  Text.contains "unknown" stderr || Text.contains "Invalid changelist" stderr

namespace Connection

/-! ## Answers -/

def settled {α : Type} (outcome : Except Failure α) : Command α :=
  ExceptT.mk (pure outcome)

def change (connection : Connection) (id : String) : Command (Option ChangeInfo) := do
  let arguments := ["-ztag", "describe", "-s", "-S", id]
  let completed ← connection.run arguments
  if completed.succeeded then
    match (Record.readAll (Utf8.decodeLossy completed.stdout)).head? with
    | some record => return some (← settled (changeInfo id record))
    | none => return none
  else if saysUnknownChange (Utf8.decodeLossy completed.stderr) then return none
  else throw (connection.failed arguments completed)

/-- The files of the first record that a describe command prints. -/
def describe (connection : Connection) (arguments : List String) (what : String) :
    Command (List FileRecord) := do
  match (← connection.records ("describe" :: arguments)).head? with
  | some record => settled (describedFiles record)
  | none => throw (.notFound what)

def printTo (connection : Connection) (spec place : String) : Command Unit := do
  let _ ← connection.output ["print", "-q", "-o", place, spec]

/-- Prints a file at a revision to a temporary place and reads it back. -/
def print (connection : Connection) (spec : String) : Command (Option Bytes) := do
  match ← ask .temporaryPath with
  | .error cause => throw (.io cause)
  | .ok place =>
      let printed ← ExceptT.lift (connection.printTo spec place).run
      let contents ← ask (.contents place)
      ask (.discard place)
      match printed with
      | .ok () => return contents.toOption
      | .error failure => throw failure

def answer (connection : Connection) : (request : Service.Request) → Command request.Result
  | .checkInstalled => do
      let _ ← connection.output ["-V"]
  | .info => do
      let text ← connection.output ["info"]
      return ServerInfo.read text
  | .counters => do
      let records ← connection.records ["counters"]
      return records.foldl putCounter []
  | .change id => connection.change id
  | .opened id => do
      let records ← connection.records ["opened", "-c", id]
      settled (records.mapM (openedFile id))
  | .describe id => connection.describe ["-s", id] s!"change {id}"
  | .describeShelved id => connection.describe ["-s", "-S", id] s!"shelved change {id}"
  | .submittedChanges after through => do
      let records ←
        connection.records ["changes", "-s", "submitted", s!"//...@>{after},@{through}"]
      return (records.filterMap (·.get? "change")).reverse
  | .fileInfo path => do
      match (← connection.records ["fstat", path]).head? with
      | some record => return Perforce.fileInfo path record
      | none => throw (.notFound s!"no such file: {path}")
  | .localPath path => do
      let records ← connection.records ["where", path]
      return mappedPath records
  | .print spec => connection.print spec
  | .add paths => do
      let _ ← connection.output ("add" :: paths)
  | .delete paths => do
      let _ ← connection.output ("delete" :: paths)

/-- Answers every question of Perforce by running its program. -/
def serve (connection : Connection) (request : Service.interface.Request) :
    Program Host.interface (Service.interface.Answer request) :=
  (connection.answer request).run

end Connection

end ReviewDiff.Perforce
