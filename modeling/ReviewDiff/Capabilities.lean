import ReviewDiff.Failure
import ReviewDiff.Host
import ReviewDiff.Json.Reader

/-!
# What a review server can take

The server publishes nested records; a capability is a path of keys that leads to
`true`.  Whatever is missing or has another value is off.
-/

namespace ReviewDiff

/-- The capabilities that a server publishes. -/
structure Capabilities where
  value : Json.Value

namespace Capabilities

def has (capabilities : Capabilities) (path : List String) : Bool :=
  match capabilities.value.follow? path with
  | some (.bool value) => value
  | _ => false

/-- Whether moves may be shown with their headers in a Perforce diff. -/
def movedFiles : List String := ["scmtools", "perforce", "moved_files"]

def emptyFiles : List String := ["scmtools", "perforce", "empty_files"]

def mistakeDetail (text : String) (mistake : Json.Mistake) : String :=
  let place := Text.Position.ofIndex text (mistake.index text)
  s!"line {place.line} column {place.column}: invalid capabilities JSON"

/-- The capabilities in the content of a file. -/
def ofContents (contents : Except Host.Fault Bytes) : Except String Capabilities :=
  match contents with
  | .error fault => .error ("could not read file: " ++ fault.message)
  | .ok bytes =>
      match Utf8.decode? bytes with
      | none => .error ("could not read file: " ++ Host.Fault.notUtf8.message)
      | some text =>
          match Json.Value.read text with
          | .ok value => .ok ⟨value⟩
          | .error mistake => .error (mistakeDetail text mistake)

def load (path : String) : Program Host.interface (Except Config.Failure Capabilities) := do
  let contents ← Program.request (I := Host.interface) (.contents path)
  return (ofContents contents).mapError fun detail => ⟨some path, detail⟩

end Capabilities

end ReviewDiff
