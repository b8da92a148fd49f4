import ReviewDiff.Client.Basic
import ReviewDiff.Config.Basic
import ReviewDiff.Git
import ReviewDiff.Path
import ReviewDiff.Perforce.Connection
import ReviewDiff.Perforce.Workspace

/-!
# Choosing a client

A client is opened for a given kind of repository, or for the kind that a
directory belongs to.  Of several working copies around a directory the deepest
one counts, and of two equally deep ones that of git.  A kind whose tools are
missing or that cannot tell where its working copy is does not take part.
-/

namespace ReviewDiff

namespace Perforce

/-- Answers questions to Perforce by running its program, and leaves the others to
the host. -/
def Connection.bridge (connection : Connection) :
    (request : surroundings.Request) → Program Host.interface (surroundings.Answer request)
  | .inl request => connection.serve request
  | .inr request => Program.request (I := Host.interface) request

def Connection.ofConfig (config : Config) (directory : String) : Connection where
  program := config.perforce.executable
  directory := some directory
  address := config.perforce.address
  user := config.perforce.user
  client := config.perforce.client

def openIn (config : Config) (directory : String) : Client Host.interface where
  backend :=
    (Workspace.backend { directory, patchProgram := config.patch.program }).interpret
      (Connection.ofConfig config directory).bridge

end Perforce

namespace Git

def WorkingTree.ofConfig (config : Config) (directory : String) : WorkingTree where
  directory := directory
  program := config.git.executable
  parentBranch := config.git.parentBranch
  patchProgram := config.patch.program

def openIn (config : Config) (directory : String) : Client Host.interface where
  backend := (WorkingTree.ofConfig config directory).backend

end Git

namespace Client

/-- A client that knows its working copy. -/
structure Candidate where
  root : String
  client : Client Host.interface

def ready (client : Client Host.interface) :
    Attempt Host.interface (Client Host.interface) := do
  let (client, outcome) ← Attempt.ofProgram client.setUp
  Attempt.ofExcept outcome
  return client

/-- Asks a client that was set up for the working copy around its directory.  One
that cannot tell has none. -/
def locate (client : Client Host.interface) : Attempt Host.interface (Option Candidate) := do
  match ← Attempt.ofProgram (client.perform .localPath).outcome with
  | .ok (some root) => return some ⟨root, client⟩
  | _ => return none

/-- Sets a client up and asks it for the working copy around its directory, unless
its tools are missing. -/
def claim (client : Client Host.interface) : Attempt Host.interface (Option Candidate) := do
  let (client, found) ← Attempt.ofProgram client.hasTools
  if found then (← client.ready).locate else return none

def candidates : List (Client Host.interface) → Attempt Host.interface (List Candidate)
  | [] => return []
  | client :: others => do
      let found ← client.claim
      let rest ← candidates others
      return found.toList ++ rest

/-- The candidate with the deepest root; of equally deep ones the last. -/
def deepest? : List Candidate → Option Candidate
  | [] => none
  | candidate :: rest =>
      match deepest? rest with
      | some other =>
          some (if Path.depth other.root < Path.depth candidate.root then candidate else other)
      | none => some candidate

def detect (config : Config) (directory : String) :
    Attempt Host.interface (Client Host.interface) := do
  let found ← candidates [Perforce.openIn config directory, Git.openIn config directory]
  match deepest? found with
  | some candidate => return candidate.client
  | none => throw (.noRepository directory)

def ofKind (kind : RepositoryKind) (config : Config) (directory : String) :
    Attempt Host.interface (Client Host.interface) :=
  match kind with
  | .auto => detect config directory
  | .perforce => (Perforce.openIn config directory).ready
  | .git => (Git.openIn config directory).ready

end Client

end ReviewDiff
