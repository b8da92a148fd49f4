/-!
# The files that a change touches
-/

namespace ReviewDiff.Change

/-- What a change does to a file.  An action that has no name here is treated as a
change of content. -/
inductive FileAction where
  | add
  | edit
  | delete
  | moveAdd
  | moveDelete
  | unknown (name : String)
  deriving DecidableEq, Repr

/-- The action with a name.  Branching and importing create a file, integrating
changes its content. -/
def FileAction.ofName : String → FileAction
  | "add" | "branch" | "import" => .add
  | "edit" | "integrate" => .edit
  | "delete" => .delete
  | "move/add" => .moveAdd
  | "move/delete" => .moveDelete
  | name => .unknown name

/-- A file touched by a change.  The revision of an opened file is the synced one,
that of a submitted file the new one. -/
structure ChangedFile where
  path : String
  revision : Nat
  action : FileAction
  change : String
  deriving DecidableEq, Repr

end ReviewDiff.Change
