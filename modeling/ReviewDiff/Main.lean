import ReviewDiff.CommandLine.Run
import ReviewDiff.Host.Calendar

/-!
# The program

`main` reads the arguments, answers the questions of the command with the files
and the clock of this machine, and prints what the command leaves behind.
Starting other programs needs a host that can do so; here every start fails.
-/

namespace ReviewDiff.Host

/-- Why an action failed, as a fault of the host. -/
def faultOf : IO.Error → Fault
  | .noFileOrDirectory _ code _ | .permissionDenied _ code _ | .inappropriateType _ code _
  | .alreadyExists _ code _ | .invalidArgument _ code _ | .resourceExhausted _ code _ =>
      .os code.toNat
  | .otherError code _ | .unsupportedOperation code _ | .hardwareFault code _ => .os code.toNat
  | _ => .os 5

def attempting {α : Type} (action : IO α) : IO (Except Fault α) := do
  try
    return .ok (← action)
  catch error =>
    return .error (faultOf error)

def makeTemporary (contents : Bytes) : IO String := do
  let (handle, path) ← IO.FS.createTempFile
  handle.write ⟨contents.toArray⟩
  handle.flush
  return path.toString

/-- The time at which a new file says that it was made. -/
def currentTime : IO LocalTime := do
  let (_, path) ← IO.FS.createTempFile
  let seconds := (← path.metadata).modified.sec
  IO.FS.removeFile path
  return .ofSeconds seconds.toNat

def serve : (request : Request) → IO request.Answer
  | .run .. => return .error (.os notImplemented)
  | .contents path => attempting do return (← IO.FS.readBinFile path).toList
  | .createFile path => attempting (IO.FS.writeFile path "")
  | .createDirectories path =>
      if path = "" then return .ok () else attempting (IO.FS.createDirAll path)
  | .writeTemporary contents => attempting (makeTemporary contents)
  | .temporaryPath => attempting (makeTemporary [])
  | .temporaryDirectory => attempting do IO.FS.removeDirAll (← IO.FS.createTempDir)
  | .discard path => do
      let _ ← attempting (IO.FS.removeFile path)
  | .now => currentTime

end ReviewDiff.Host

open ReviewDiff in
def main (arguments : List String) : IO UInt32 := do
  let kind ← IO.getEnv CommandLine.kindVariable
  let directory ← IO.currentDir
  let ending ← (CommandLine.run kind arguments directory.toString).run Host.serve
  (← IO.getStdout).write ⟨ending.stdout.toArray⟩
  (← IO.getStderr).putStr ending.stderr
  return ending.exitCode.toUInt32
