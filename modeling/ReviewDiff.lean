import ReviewDiff.Main
import ReviewDiff.Proofs.Change.EmptyFiles
import ReviewDiff.Proofs.Change.Moves
import ReviewDiff.Proofs.Change.Written
import ReviewDiff.Proofs.Client.Lifecycle
import ReviewDiff.Proofs.Client.Ranges
import ReviewDiff.Proofs.LineDiff.ReadBack
import ReviewDiff.Proofs.Perforce.Depot
import ReviewDiff.Proofs.Perforce.Filter
import ReviewDiff.Proofs.Perforce.Mapping
import ReviewDiff.Proofs.Change.Ends
import ReviewDiff.Proofs.Change.PlainMoves
import ReviewDiff.Proofs.LineDiff.Listing
import ReviewDiff.Proofs.LineDiff.Shape
import ReviewDiff.Proofs.LineDiff.Front
import ReviewDiff.Proofs.LineDiff.Middle
import ReviewDiff.Proofs.LineDiff.Shortest
import ReviewDiff.Proofs.Glob
import ReviewDiff.Proofs.Perforce.Complement
import ReviewDiff.Proofs.Perforce.Excluded
import ReviewDiff.Proofs.Perforce.Describe
import ReviewDiff.Proofs.Path
import ReviewDiff.Proofs.Patch.StripCount
import ReviewDiff.Proofs.Patch.Outcome
import ReviewDiff.Proofs.Perforce.Numbered
import ReviewDiff.Proofs.Git.ParentBranch
import ReviewDiff.Proofs.Perforce.EmptyFiles
import ReviewDiff.Proofs.Perforce.OnServer
import ReviewDiff.Proofs.Perforce.SingleChange
import ReviewDiff.Proofs.Patch.Components
import ReviewDiff.Proofs.Text.WellFormed
import ReviewDiff.Proofs.Change.DiffResult
import ReviewDiff.Proofs.Patch.HeaderGrammar
import ReviewDiff.Proofs.Client.Detection
