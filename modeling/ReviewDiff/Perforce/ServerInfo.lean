import ReviewDiff.Text.Blank
import ReviewDiff.Text.Cut
import ReviewDiff.Text.Line
import ReviewDiff.Text.Number

/-!
# What a Perforce server tells about itself
-/

namespace ReviewDiff.Perforce

/-- The lines of `p4 info` that matter here. -/
structure ServerInfo where
  serverAddress : Option String := none
  brokerAddress : Option String := none
  brokerEncryption : Option String := none
  serverEncryption : Option String := none
  clientRoot : Option String := none
  clientName : Option String := none
  serverVersion : Option String := none
  deriving DecidableEq, Repr

namespace ServerInfo

/-- Takes one line into account; a later line replaces an earlier one with the
same key. -/
def addLine (info : ServerInfo) (line : String) : ServerInfo :=
  match Text.cut? ":" line with
  | none => info
  | some (key, text) =>
      let value := some (Text.trim text)
      match Text.trim key with
      | "Server address" => { info with serverAddress := value }
      | "Broker address" => { info with brokerAddress := value }
      | "Broker encryption" => { info with brokerEncryption := value }
      | "Server encryption" => { info with serverEncryption := value }
      | "Client root" => { info with clientRoot := value }
      | "Client name" => { info with clientName := value }
      | "Server version" => { info with serverVersion := value }
      | _ => info

def read (output : String) : ServerInfo :=
  (Text.lines output).foldl addLine {}

/-- The address that clients connect to, the broker's if there is one, and whether
the connection is encrypted. -/
def connection? (info : ServerInfo) : Option (String × Bool) :=
  match info.brokerAddress, info.serverAddress with
  | some broker, _ => some (broker, info.brokerEncryption = some "encrypted")
  | none, some server => some (server, info.serverEncryption = some "encrypted")
  | none, none => none

end ServerInfo

/-! ## Versions -/

structure ServerVersion where
  year : Nat
  minor : Nat
  deriving DecidableEq, Repr

namespace ServerVersion

/-- The version in a banner such as `P4D/LINUX/2012.2/525804`: the third part, a
year and a number that starts with digits. -/
def read? (banner : String) : Option ServerVersion := do
  let segment ← (Text.split '/' banner)[2]?
  let (year, minor) ← Text.cut? "." segment
  let year ← Text.readNat? Text.max32 year
  let minor ← Text.readDigits? Text.max32 (minor.toList.takeWhile Char.isDigit)
  return ⟨year, minor⟩

def unreadable (banner : String) : String :=
  "unable to parse server version from '" ++ banner ++ "'"

def display (version : ServerVersion) : String :=
  s!"{version.year}.{version.minor}"

instance : Ord ServerVersion where
  compare a b := (compare a.year b.year).then (compare a.minor b.minor)

end ServerVersion

end ReviewDiff.Perforce
