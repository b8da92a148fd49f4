/-!
# The error numbers of an operating system call and their descriptions
-/

namespace ReviewDiff.Host

/-- What the error numbers from 1 upwards mean. -/
def errnoTexts : List String :=
  ["Operation not permitted", "No such file or directory", "No such process",
    "Interrupted system call", "Input/output error", "No such device or address",
    "Argument list too long", "Exec format error", "Bad file descriptor",
    "No child processes", "Resource temporarily unavailable",
    "Cannot allocate memory", "Permission denied", "Bad address",
    "Block device required", "Device or resource busy", "File exists",
    "Invalid cross-device link", "No such device", "Not a directory",
    "Is a directory", "Invalid argument", "Too many open files in system",
    "Too many open files", "Inappropriate ioctl for device", "Text file busy",
    "File too large", "No space left on device", "Illegal seek",
    "Read-only file system", "Too many links", "Broken pipe",
    "Numerical argument out of domain", "Numerical result out of range",
    "Resource deadlock avoided", "File name too long", "No locks available",
    "Function not implemented", "Directory not empty",
    "Too many levels of symbolic links"]

def describe (code : Nat) : String :=
  match code with
  | 0 => "Success"
  | n + 1 => errnoTexts[n]?.getD s!"Unknown error {code}"

/-! ## Numbers used by name -/

def notFound : Nat := 2

def permissionDenied : Nat := 13

def alreadyExists : Nat := 17

def notADirectory : Nat := 20

def isADirectory : Nat := 21

def nameTooLong : Nat := 36

def notImplemented : Nat := 38

/-! ## Failures -/

/-- Why a request to the host failed. -/
inductive Fault where
  | os (code : Nat)
  | notUtf8
  | nulInPath
  | nulInArgument
  deriving DecidableEq, Repr

def Fault.message : Fault → String
  | .os code => s!"{describe code} (os error {code})"
  | .notUtf8 => "stream did not contain valid UTF-8"
  | .nulInPath => "file name contained an unexpected NUL byte"
  | .nulInArgument => "nul byte found in provided data"

end ReviewDiff.Host
