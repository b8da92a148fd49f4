import ReviewDiff.Failure
import ReviewDiff.Json.Value
import ReviewDiff.Text.Number

/-!
# Revisions and how tokens name them

A diff runs from a base to a tip.  `resolve` turns at most two changelist tokens
into such a range, asking the server for the status of each changelist that is
named.
-/

namespace ReviewDiff

/-- The state of a changelist.  The files of a pending one are opened in a
workspace only, those of a shelved one lie on the server as well. -/
inductive ChangeStatus where
  | pending
  | shelved
  | submitted
  deriving DecidableEq, Repr

namespace ChangeStatus

def name : ChangeStatus → String
  | .pending => "pending"
  | .shelved => "shelved"
  | .submitted => "submitted"

/-- The status with a name; blanks around the name do not count. -/
def ofName? (text : String) : Option ChangeStatus :=
  match Text.trim text with
  | "pending" => some .pending
  | "shelved" => some .shelved
  | "submitted" => some .submitted
  | _ => none

def isPending : ChangeStatus → Bool
  | .pending | .shelved => true
  | .submitted => false

end ChangeStatus

/-- One end of a range.  `currentSync` is what the workspace was last synced to.
-/
inductive RevisionId where
  | concrete (id : String)
  | currentSync
  | pending (id : String)
  | workingCopy
  deriving DecidableEq, Repr

namespace RevisionId

def display : RevisionId → String
  | .concrete id => id
  | .currentSync => "current-sync"
  | .pending id => "pending:" ++ id
  | .workingCopy => "working-copy"

def concrete? : RevisionId → Option String
  | .concrete id => some id
  | _ => none

def json : RevisionId → Json.Value
  | .concrete id => .record [("kind", .text "concrete"), ("id", .text id)]
  | .currentSync => .record [("kind", .text "current_sync")]
  | .pending id => .record [("kind", .text "pending"), ("id", .text id)]
  | .workingCopy => .record [("kind", .text "working_copy")]

end RevisionId

/-- A range of revisions: what lies after the base, up to the tip. -/
structure RevisionRange where
  base : RevisionId
  tip : RevisionId
  parentBase : Option RevisionId := none
  commitId : Option String := none
  deriving DecidableEq, Repr

def RevisionRange.json (range : RevisionRange) : Json.Value :=
  .record ([("base", range.base.json), ("tip", range.tip.json)] ++
    Json.optionalField "parent_base" (range.parentBase.map RevisionId.json) ++
    Json.optionalField "commit_id" (range.commitId.map .text))

/-- The name of the pending changelist that needs no number. -/
def defaultChangelist : String := "default"

/-! ## Changelist tokens -/

def parseChange (change : String) : Except Failure Nat :=
  match Text.readNat64? change with
  | some number => .ok number
  | none => .error (.invalidRevisionSpec s!"'{change}' is not a changelist number")

namespace RevisionRange

variable {I : Interface}

/-- The status of a changelist that has to be there. -/
def statusOf (lookup : String → Attempt I (Option ChangeStatus)) (change : String) :
    Attempt I ChangeStatus := do
  match ← lookup change with
  | some status => return status
  | none =>
      throw (.invalidRevisionSpec s!"'{change}' does not appear to be a valid changelist")

/-- The range of one changelist: a pending one against the synced state, a
submitted one against its predecessor. -/
def ofChange (lookup : String → Attempt I (Option ChangeStatus)) (change : String) :
    Attempt I RevisionRange := do
  let status ← statusOf lookup change
  if status.isPending then
    return { base := .currentSync, tip := .pending change, commitId := some change }
  match ← Attempt.ofExcept (parseChange change) with
  | 0 => throw (.invalidRevisionSpec s!"changelist {change} has no predecessor")
  | previous + 1 =>
      return {
        base := .concrete (toString previous), tip := .concrete change
        commitId := some change }

def requireSubmitted (lookup : String → Attempt I (Option ChangeStatus)) (change : String) :
    Attempt I Unit := do
  let status ← statusOf lookup change
  if status.isPending then
    throw (.invalidRevisionSpec
      s!"{change} is a pending changelist; only submitted changelists can be used in a range")

def ofChanges (lookup : String → Attempt I (Option ChangeStatus)) (first second : String) :
    Attempt I RevisionRange := do
  requireSubmitted lookup first
  requireSubmitted lookup second
  let start ← Attempt.ofExcept (parseChange first)
  let stop ← Attempt.ofExcept (parseChange second)
  if stop < start then
    throw (.invalidRevisionSpec s!"changelist {first} is newer than {second}")
  return { base := .concrete first, tip := .concrete second }

/-- The range that changelist tokens name.  Without a token it is the default
changelist against the synced state. -/
def ofTokens (lookup : String → Attempt I (Option ChangeStatus)) :
    List String → Attempt I RevisionRange
  | [] => return { base := .currentSync, tip := .pending defaultChangelist }
  | [change] => ofChange lookup change
  | [first, second] => ofChanges lookup first second
  | _ => throw .tooManyRevisions

end RevisionRange

end ReviewDiff
