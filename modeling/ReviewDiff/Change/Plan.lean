import ReviewDiff.Change.Collapse
import ReviewDiff.Failure
import ReviewDiff.Text.Utf8

/-!
# Which files are shown together

A move appears as a removed and a created file.  When moves are to be detected,
the keeper of the files is asked where each removed half went, and halves that
belong together become one part of the plan.  Every other file is a part of its
own.  Parts stand in the order in which their files come first.
-/

namespace ReviewDiff.Change

namespace Snapshots

/-- What may be asked of the keeper of the files. -/
inductive Request where
  | content (path : String) (version : Version)
  | localPath (path : String)
  | moveTarget (path : String)

def Request.Answer : Request → Type
  | .content .. => Except Failure Bytes
  | .localPath _ => Except Failure (Option String)
  | .moveTarget _ => Except Failure (Option String)

def interface : Interface where
  Request := Request
  Answer := Request.Answer

abbrev Query (α : Type) := Program interface α

def ask (request : Request) : Query request.Answer :=
  Program.request (I := interface) request

end Snapshots

/-- A removed file with the created file that it became. -/
structure MoveLink where
  source : FileChange
  dest : FileChange
  deriving DecidableEq, Repr

/-- The link from a removed file to a created one among the changes, given where
the file went. -/
def link?
    (changes : List FileChange) (source : FileChange)
    (target : Except Failure (Option String)) :
    Option MoveLink :=
  match target with
  | .ok (some path) =>
      (changes.find? fun change => change.kind = .moveAdd && change.path = path).map
        (⟨source, ·⟩)
  | _ => none

def findLinks (changes : List FileChange) : List FileChange → Snapshots.Query (List MoveLink)
  | [] => return []
  | change :: rest => do
      if change.kind = .moveDelete then
        let target ← Snapshots.ask (.moveTarget change.path)
        let links ← findLinks changes rest
        return (link? changes change target).toList ++ links
      else findLinks changes rest

/-- The links that remain when every created file takes the first removed file
that claims it; `taken` holds the created files that are taken. -/
def firstClaims (taken : List String) : List MoveLink → List MoveLink
  | [] => []
  | link :: rest =>
      if link.dest.path ∈ taken then firstClaims taken rest
      else link :: firstClaims (link.dest.path :: taken) rest

inductive Part where
  | single (change : FileChange)
  | move (link : MoveLink)
  deriving DecidableEq, Repr

/-- The parts for a list of files; `shown` holds the paths of the halves that were
shown with their partners. -/
def arrange (links : List MoveLink) (shown : List String) : List FileChange → List Part
  | [] => []
  | change :: rest =>
      if change.path ∈ shown then arrange links shown rest
      else
        match links.find? fun link =>
            link.source.path = change.path || link.dest.path = change.path with
        | some link =>
            .move link :: arrange links (link.source.path :: link.dest.path :: shown) rest
        | none => .single change :: arrange links shown rest

def plan (changes : List FileChange) (detectMoves : Bool) : Snapshots.Query (List Part) := do
  if detectMoves then
    let links ← findLinks changes changes
    return arrange (firstClaims [] links) [] changes
  else return arrange [] [] changes

end ReviewDiff.Change
