import ReviewDiff.Failure
import ReviewDiff.Text.Utf8
import ReviewDiff.Perforce.ServerInfo
import ReviewDiff.Revision

/-!
# What a Perforce client program offers

`Service.interface` lists the questions that the rest of the library asks of
Perforce.  They can be answered by the Perforce program or by anything that keeps
depots.
-/

namespace ReviewDiff.Perforce

structure ChangeInfo where
  change : String
  status : ChangeStatus
  user : Option String
  client : Option String
  description : String
  deriving DecidableEq, Repr

/-- A file in a changelist.  The revision of an opened file is the synced one,
that of a submitted file the new one. -/
structure FileRecord where
  path : String
  revision : Nat
  action : String
  change : String
  deriving DecidableEq, Repr

/-- What is known of a file.  The moved file is the other half of a move. -/
structure FileInfo where
  depotPath : String
  clientFile : Option String
  movedFile : Option String
  headRevision : Option Nat
  haveRevision : Option Nat
  deriving DecidableEq, Repr

namespace Service

/-- What may be asked of Perforce.  Submitted changelists are those after one
number and up to another, oldest first, and for a file that is not there nothing
is printed. -/
inductive Request where
  | checkInstalled
  | info
  | counters
  | change (id : String)
  | opened (change : String)
  | describe (change : String)
  | describeShelved (change : String)
  | submittedChanges (after through : Nat)
  | fileInfo (path : String)
  | localPath (path : String)
  | print (spec : String)
  | add (paths : List String)
  | delete (paths : List String)

/-- The type of the answer to a request, if it does not fail. -/
def Request.Result : Request → Type
  | .checkInstalled => Unit
  | .info => ServerInfo
  | .counters => List (String × String)
  | .change _ => Option ChangeInfo
  | .opened _ => List FileRecord
  | .describe _ => List FileRecord
  | .describeShelved _ => List FileRecord
  | .submittedChanges .. => List String
  | .fileInfo _ => FileInfo
  | .localPath _ => Option String
  | .print _ => Option Bytes
  | .add _ => Unit
  | .delete _ => Unit

def interface : Interface where
  Request := Request
  Answer request := Except Failure request.Result

end Service

end ReviewDiff.Perforce
