/-!
# The configuration

Everything has a default, so a configuration says only what differs.
-/

namespace ReviewDiff

/-- Which kind of repository to work on. -/
inductive RepositoryKind where
  | auto
  | perforce
  | git
  deriving DecidableEq, Repr

namespace RepositoryKind

def name : RepositoryKind → String
  | .auto => "auto"
  | .perforce => "perforce"
  | .git => "git"

def all : List RepositoryKind := [.auto, .perforce, .git]

def ofName? (name : String) : Option RepositoryKind :=
  all.find? (·.name = name)

/-- The kind that a caller asks for.  A short name for Perforce is understood as
well. -/
def ofArgument (argument : String) : Except String RepositoryKind :=
  if argument = "p4" then .ok .perforce
  else
    match ofName? argument with
    | some kind => .ok kind
    | none => .error s!"unknown repository type '{argument}' (expected auto, perforce or git)"

end RepositoryKind

namespace Config

/-- How Perforce is reached.  What is not given is left to its environment. -/
structure PerforceSection where
  executable : String := "p4"
  address : Option String := none
  user : Option String := none
  client : Option String := none
  deriving DecidableEq, Repr

structure GitSection where
  executable : String := "git"
  parentBranch : Option String := none
  deriving DecidableEq, Repr

structure PatchSection where
  program : String := "patch"
  deriving DecidableEq, Repr

end Config

structure Config where
  kind : RepositoryKind := .auto
  perforce : Config.PerforceSection := {}
  git : Config.GitSection := {}
  patch : Config.PatchSection := {}
  deriving DecidableEq, Repr

end ReviewDiff
