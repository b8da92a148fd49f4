import ReviewDiff.Host.Errno
import ReviewDiff.Program
import ReviewDiff.Text.Number
import ReviewDiff.Text.Utf8

/-!
# The host: programs, files and the clock

`Host.interface` lists what the library asks of the machine it runs on.
Everything else is computed.
-/

namespace ReviewDiff

namespace Host

/-- What a program that ran to its end left behind.  A program that a signal ended
has no exit code. -/
structure Completed where
  exitCode : Option Int
  stdout : Bytes
  stderr : Bytes

def Completed.succeeded (completed : Completed) : Bool :=
  completed.exitCode = some 0

/-- The exit code, with −1 for a program that a signal ended. -/
def Completed.code (completed : Completed) : Int :=
  completed.exitCode.getD (-1)

/-- Standard output followed by standard error, as text. -/
def Completed.output (completed : Completed) : String :=
  Utf8.decodeLossy completed.stdout ++ Utf8.decodeLossy completed.stderr

def commandLine (program : String) (arguments : List String) : String :=
  String.intercalate " " (program :: arguments)

structure LocalTime where
  year : Nat
  month : Nat
  day : Nat
  hour : Nat
  minute : Nat
  second : Nat

/-- The time as it stands in the header of a diff. -/
def LocalTime.stamp (time : LocalTime) : String :=
  let two := Text.paddedDecimal 2
  let date :=
    String.intercalate "-" [Text.paddedDecimal 4 time.year, two time.month, two time.day]
  date ++ " " ++ String.intercalate ":" [two time.hour, two time.minute, two time.second]

/-- What may be asked of the host.  Creating a file empties one that is there,
directories are created with those above them, and what is temporary is named by
the answer. -/
inductive Request where
  | run (program : String) (arguments : List String) (directory : Option String)
  | contents (path : String)
  | createFile (path : String)
  | createDirectories (path : String)
  | writeTemporary (contents : Bytes)
  | temporaryPath
  | temporaryDirectory
  | discard (path : String)
  | now

def Request.Answer : Request → Type
  | .run .. => Except Fault Completed
  | .contents _ => Except Fault Bytes
  | .createFile _ => Except Fault Unit
  | .createDirectories _ => Except Fault Unit
  | .writeTemporary _ => Except Fault String
  | .temporaryPath => Except Fault String
  | .temporaryDirectory => Except Fault Unit
  | .discard _ => Unit
  | .now => LocalTime

def interface : Interface where
  Request := Request
  Answer := Request.Answer

end Host

end ReviewDiff
