import ReviewDiff.Host.Errno
import ReviewDiff.Text.Blank
import ReviewDiff.Program

/-!
# What can go wrong

`Failure` is the failure of an operation on a working copy; `Perforce.Failure` and
`Config.Failure` are its parts that come from the Perforce server and from a
configuration file.  Each kind has one message.
-/

namespace ReviewDiff

namespace Perforce

/-- Why a Perforce operation failed.  A command that a signal ended has no exit
code. -/
inductive Failure where
  | notFound (message : String)
  | notInstalled (program : String) (cause : Host.Fault)
  | commandFailed (command : String) (exitCode : Option Int) (stderr : String)
  | malformed (message : String)
  | io (cause : Host.Fault)
  deriving DecidableEq, Repr

def Failure.message : Failure → String
  | .notFound message => "not found: " ++ message
  | .notInstalled program cause => "`" ++ program ++ "` could not be run: " ++ cause.message
  | .commandFailed command exitCode stderr =>
      let code := match exitCode with
        | some code => toString code
        | none => "none"
      "`" ++ command ++ "` failed (exit code " ++ code ++ "): " ++ stderr
  | .malformed message => "could not parse p4 output: " ++ message
  | .io cause => "I/O error: " ++ cause.message

/-- The failure of the host that lies behind, if any. -/
def Failure.cause? : Failure → Option Host.Fault
  | .notInstalled _ cause | .io cause => some cause
  | _ => none

end Perforce

namespace Config

/-- Why a configuration or capability file could not be used. -/
structure Failure where
  path : Option String
  detail : String
  deriving DecidableEq, Repr

def Failure.message (failure : Failure) : String :=
  match failure.path with
  | some path => path ++ ": " ++ failure.detail
  | none => "config error: " ++ failure.detail

end Config

/-- Why an operation on a working copy failed. -/
inductive Failure where
  | invalidRevisionSpec (message : String)
  | tooManyRevisions
  | patch (line : String) (exitCode : Int) (output : String)
  | dependency (client detail : String)
  | notImplemented (client operation : String)
  | notSetUp (client : String)
  | noRepository (path : String)
  | command (line output : String)
  | perforce (failure : Perforce.Failure)
  | config (failure : Config.Failure)
  | io (cause : Host.Fault)
  deriving DecidableEq, Repr

namespace Failure

def outputNote (output : String) : String :=
  if output = "" then "" else "\n  output: " ++ Text.trimEnd output

def message : Failure → String
  | .invalidRevisionSpec message => "invalid revision specification: " ++ message
  | .tooManyRevisions =>
      "too many revisions specified.\n  To fix: pass at most two revisions (a base and a tip)."
  | .patch line exitCode output =>
      "patch failed (exit code " ++ toString exitCode ++ "): " ++ line ++ outputNote output
  | .dependency client detail =>
      client ++ " is not available: " ++ detail ++ "\n  To fix: install the " ++ client ++
        " command-line tools and make sure they are on PATH."
  | .notImplemented client operation =>
      operation ++ " is not supported by the " ++ client ++ " client"
  | .notSetUp client => "the " ++ client ++ " client was used before setup() completed"
  | .noRepository path =>
      "no supported repository found at '" ++ path ++
        "'.\n  To fix: run from inside a Perforce client workspace or git working tree, or " ++
        "pass --repository-type."
  | .command line output => "command failed: " ++ line ++ outputNote output
  | .perforce failure => "perforce error: " ++ failure.message
  | .config failure =>
      "configuration error: " ++ failure.message ++
        "\n  To fix: edit the config file and correct the issue."
  | .io cause => "I/O error: " ++ cause.message

/-- The messages of the failures behind a failure, nearest first. -/
def causes : Failure → List String
  | .perforce failure => failure.message :: (failure.cause?.map Host.Fault.message).toList
  | .config failure => [failure.message]
  | .io cause => [cause.message]
  | _ => []

end Failure

/-- A program that may fail. -/
abbrev Attempt (I : Interface) (α : Type) := ExceptT Failure (Program I) α

namespace Attempt

variable {I : Interface} {α : Type}

def ofProgram (program : Program I α) : Attempt I α :=
  ExceptT.lift program

/-- A program that reports its own kind of failure. -/
def ofOutcome {ε : Type} (wrap : ε → Failure) (program : Program I (Except ε α)) :
    Attempt I α :=
  ExceptT.mk do
    match ← program with
    | .ok value => pure (.ok value)
    | .error failure => pure (.error (wrap failure))

def ofExcept (outcome : Except Failure α) : Attempt I α :=
  ExceptT.mk (pure outcome)

/-- The outcome of an attempt as a value. -/
def outcome (attempt : Attempt I α) : Program I (Except Failure α) :=
  attempt.run

end Attempt

end ReviewDiff
