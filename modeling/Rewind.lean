import Rewind.Log.Logger
import Rewind.Main
import Rewind.Proofs.Barrier
import Rewind.Proofs.Classification
import Rewind.Proofs.Comparisons
import Rewind.Proofs.Concatenation
import Rewind.Proofs.Denials
import Rewind.Proofs.Dependability
import Rewind.Proofs.Detection
import Rewind.Proofs.Doubling
import Rewind.Proofs.Growth
import Rewind.Proofs.Images
import Rewind.Proofs.Isolation
import Rewind.Proofs.LastWords
import Rewind.Proofs.Limits
import Rewind.Proofs.Listings
import Rewind.Proofs.Medians
import Rewind.Proofs.Obstacles
import Rewind.Proofs.Printing
import Rewind.Proofs.RearmGap
import Rewind.Proofs.Rearming
import Rewind.Proofs.Reclassification
import Rewind.Proofs.Recovery
import Rewind.Proofs.Rounding
import Rewind.Proofs.Rounds
import Rewind.Proofs.Schedules
import Rewind.Proofs.Scribbles
import Rewind.Proofs.Selection
import Rewind.Proofs.Sizes
import Rewind.Proofs.Statistics
import Rewind.Proofs.Teardowns
import Rewind.Target.Script
