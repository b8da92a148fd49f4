import ReviewDiff.Capabilities
import ReviewDiff.Client.Features
import ReviewDiff.Client.Operation
import ReviewDiff.Host
import ReviewDiff.Patch.Apply

/-!
# Kinds of clients

A `Backend` is what a client for one kind of repository knows how to do, over an
interface `I` that answers its questions.  `Backend.interpret` moves it to another
interface.
-/

namespace ReviewDiff

/-- What a client for a kind of repository does, given the capabilities of the
server.  Where `provide` has nothing for an operation, it is not provided. -/
structure Backend (I : Interface) where
  id : String
  name : String
  features : Features
  checkTools : Attempt I Unit
  applier : Patch.Applier
  host : (request : Host.Request) → Program I request.Answer
  provide : Option Capabilities → (operation : Operation) → Option (Attempt I operation.Result)
  emptyFiles : Option Capabilities → Bool := fun _ => false
  changeNumber : RevisionRange → Option String := fun _ => none
  remoteOnly : Bool := false

namespace Attempt

variable {I J : Interface} {α : Type}

/-- Answers the questions of an attempt by programs over another interface. -/
def interpret
    (serve : (request : I.Request) → Program J (I.Answer request)) (attempt : Attempt I α) :
    Attempt J α :=
  ExceptT.mk (attempt.run.interpret serve)

end Attempt

namespace Backend

variable {I J : Interface}

def interpret
    (serve : (request : I.Request) → Program J (I.Answer request)) (backend : Backend I) :
    Backend J where
  id := backend.id
  name := backend.name
  features := backend.features
  checkTools := backend.checkTools.interpret serve
  applier := backend.applier
  host request := (backend.host request).interpret serve
  provide capabilities operation :=
    (backend.provide capabilities operation).map (·.interpret serve)
  emptyFiles := backend.emptyFiles
  changeNumber := backend.changeNumber
  remoteOnly := backend.remoteOnly

end Backend

end ReviewDiff
