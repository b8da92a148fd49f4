import ReviewDiff.Change.Record

/-!
# One entry for each file

A range of changes can touch a file many times.  `collapse` unites the records of
a path into one `FileChange`: its old side is that of the first record, its new
side that of the last one, and what lies between does not matter.  A file that is
created first and removed last leaves no entry.
-/

namespace ReviewDiff.Change

/-- What happens to a file, seen over a range. -/
inductive Kind where
  | add
  | edit
  | delete
  | moveAdd
  | moveDelete
  deriving DecidableEq, Repr

namespace Kind

def ofAction : FileAction → Kind
  | .add => .add
  | .edit => .edit
  | .delete => .delete
  | .moveAdd => .moveAdd
  | .moveDelete => .moveDelete
  | .unknown _ => .edit

def creates : Kind → Bool
  | .add | .moveAdd => true
  | _ => false

def removes : Kind → Bool
  | .delete | .moveDelete => true
  | _ => false

/-- The kind of half a move that is seen on its own. -/
def unpaired : Kind → Kind
  | .moveAdd => .add
  | .moveDelete => .delete
  | kind => kind

end Kind

inductive Version where
  | numbered (revision : Nat)
  | pending (change : String)
  deriving DecidableEq, Repr

/-- A file over a range of changes. -/
structure FileChange where
  path : String
  kind : Kind
  old : Option Nat
  new : Option Version
  revision : Nat
  deriving DecidableEq, Repr

def ChangedFile.kind (record : ChangedFile) : Kind :=
  .ofAction record.action

/-- The revision before a record: the synced one of an opened file, the one before
that of a submitted file. -/
def ChangedFile.oldSide (inFlight : Bool) (record : ChangedFile) : Option Nat :=
  let revision := if inFlight then record.revision else record.revision - 1
  if 0 < revision && !record.kind.creates then some revision else none

def ChangedFile.newSide (inFlight : Bool) (record : ChangedFile) : Option Version :=
  if record.kind.removes then none
  else if inFlight then some (.pending record.change)
  else some (.numbered record.revision)

/-! ## Gathering -/

/-- The records of a path: the first, and the last if there are several. -/
structure Span where
  first : ChangedFile
  last : Option ChangedFile
  deriving DecidableEq, Repr

/-- Takes a record into account.  A path seen before keeps its place. -/
def gather (record : ChangedFile) : List Span → List Span
  | [] => [⟨record, none⟩]
  | span :: rest =>
      if span.first.path = record.path then { span with last := some record } :: rest
      else span :: gather record rest

/-- What remains of a path over the range; `inFlight` says that the records are of
opened files. -/
def Span.settle (inFlight : Bool) (span : Span) : Option FileChange :=
  let first := span.first
  match span.last with
  | none =>
      some
        ⟨first.path, first.kind, first.oldSide inFlight, first.newSide inFlight,
          first.revision⟩
  | some last =>
      let entry (kind : Kind) : Option FileChange :=
        some ⟨first.path, kind, first.oldSide inFlight, last.newSide inFlight, last.revision⟩
      match first.kind.creates, last.kind.removes with
      | true, true => none
      | true, false => entry .add
      | false, true => entry .delete
      | false, false => entry .edit

/-- One entry for each path, in the order in which paths come first. -/
def collapse (inFlight : Bool) (records : List ChangedFile) : List FileChange :=
  (records.foldl (fun spans record => gather record spans) []).filterMap (Span.settle inFlight)

end ReviewDiff.Change
