import ReviewDiff.Failure
import ReviewDiff.Host
import ReviewDiff.Patch.StripCount
import ReviewDiff.Text.Cut

/-!
# Applying a diff with a patch program

`Applier.apply` writes the diff to a temporary file, runs the patch program once
and judges its exit code and output.  An exit code other than 0 and 2 is fatal,
and so is output that starts like a fatal message.  The exception is the message
that the input holds only garbage: this is what the program says of a diff made of
headers for empty files, so then a client that handles those headers decides.
-/

namespace ReviewDiff.Patch

structure Request where
  diff : Bytes
  basePath : String := ""
  baseDir : String := ""
  stripCount : Option Nat := none
  revert : Bool := false

/-- How many leading components the patch program is told to strip. -/
def Request.effectiveStripCount (request : Request) : Option Nat :=
  request.stripCount <|> stripCount? request.basePath request.baseDir

structure Outcome where
  applied : Bool
  output : String
  rejectedFiles : List String
  deriving DecidableEq, Repr

/-! ## The output of a patch program -/

/-- The message for input that holds no hunks. -/
def onlyGarbage : String := "patch: **** Only garbage was found in the patch input.\n"

def fatalStart : String := "patch: **** "

/-- The exit code for trouble, which includes input that holds no hunks. -/
def exitTrouble : Int := 2

def rejectMark : String := "FAILED -- saving rejects to file "

/-- The file whose rejects a line reports. -/
def rejectedFile? (line : List Char) : Option String :=
  match Text.cutList? rejectMark.toList line with
  | none => none
  | some (_, name) =>
      match ".rej".toList.reverse.isPrefixOf? name.reverse with
      | some (c :: rest) => some (String.ofList (c :: rest).reverse)
      | _ => none

def reportedRejects (output : String) : List String :=
  (output.toList.splitOn '\n').filterMap rejectedFile?

def Outcome.ofOutput (applied : Bool) (output : String) : Outcome :=
  ⟨applied, output, reportedRejects output⟩

/-- Whether an exit code with its output is fatal whatever the diff holds. -/
def isFatal (exitCode : Int) (output : String) : Bool :=
  (exitCode ≠ 0 && exitCode ≠ exitTrouble) ||
    (Text.startsWith fatalStart output && output ≠ onlyGarbage)

/-! ## Applying -/

structure Applier where
  program : String := "patch"
  directory : String
  removeEmptyFiles : Bool := false

def Applier.arguments (applier : Applier) (request : Request) (file : String) : List String :=
  (if request.revert then ["-R"] else []) ++
    (if applier.removeEmptyFiles then ["-E"] else []) ++
    (match request.effectiveStripCount with
      | some count => [s!"-p{count}"]
      | none => []) ++ ["-i", file]

variable {I : Interface}

/-- Applies the headers for empty files in a diff: given the diff, the strip count
and the direction, it tells whether there was anything to do. -/
abbrev EmptyFileHook (I : Interface) := Bytes → Option Nat → Bool → Attempt I Bool

/-- Judges a finished run of the patch program on a diff in a file. -/
def judge (host : (q : Host.Request) → Program I q.Answer) (request : Request)
    (hook : Option (EmptyFileHook I)) (line file : String) (completed : Host.Completed) :
    Attempt I Outcome := do
  let output := completed.output
  let fatal := Failure.patch line completed.code output
  if isFatal completed.code output then throw fatal
  match hook with
  | none => return .ofOutput completed.succeeded output
  | some hook =>
      match ← ExceptT.lift (host (.contents file)) with
      | .error _ => return .ofOutput false output
      | .ok diff =>
          let patched ← hook diff request.effectiveStripCount request.revert
          if output = onlyGarbage then
            if patched then return .ofOutput true output else throw fatal
          return .ofOutput completed.succeeded output

/-- Applies a diff.  With a hook, headers for empty files are applied as well. -/
def Applier.apply
    (applier : Applier) (host : (q : Host.Request) → Program I q.Answer) (request : Request)
    (hook : Option (EmptyFileHook I)) : Attempt I Outcome := do
  let file ← Attempt.ofOutcome .io (host (.writeTemporary request.diff))
  let arguments := applier.arguments request file
  let line := Host.commandLine applier.program arguments
  let outcome ← ExceptT.lift do
    match ← host (.run applier.program arguments (some applier.directory)) with
    | .error fault => pure (.error (Failure.command line fault.message))
    | .ok completed => (judge host request hook line file completed).outcome
  let _ ← ExceptT.lift (host (.discard file))
  ExceptT.mk (pure outcome)

end ReviewDiff.Patch
