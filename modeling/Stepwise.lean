import Stepwise.Main
import Stepwise.Program.Printer
import Stepwise.Program.Samples
import Stepwise.Proofs.Effects
import Stepwise.Proofs.Correspondence
import Stepwise.Proofs.Scenes
import Stepwise.Proofs.Walking
import Stepwise.Proofs.Scoping
import Stepwise.Proofs.Ownership
import Stepwise.Proofs.Lexical
import Stepwise.Proofs.StoreRelation
import Stepwise.Proofs.Refinement
import Stepwise.Proofs.CallStack
import Stepwise.Proofs.Endings
import Stepwise.Proofs.Bookkeeping
import Stepwise.Proofs.Driving
import Stepwise.Proofs.Handoff
import Stepwise.Proofs.Interleaving
import Stepwise.Proofs.Exclusion
import Stepwise.Proofs.Stopping
import Stepwise.Proofs.Safety
import Stepwise.Proofs.CallTree
import Stepwise.Proofs.RoundTrip
import Stepwise.Proofs.Concatenation
import Stepwise.Proofs.Indifference
import Stepwise.Proofs.Blame
import Stepwise.Proofs.Meddling
import Stepwise.Proofs.Sharing
import Stepwise.Proofs.Printing
import Stepwise.Proofs.Modes
import Stepwise.Proofs.Depth
import Stepwise.Proofs.Sites
import Stepwise.Proofs.Reentry
import Stepwise.Proofs.StatementLists
import Stepwise.Proofs.Tracing
import Stepwise.Proofs.Rendering
import Stepwise.Proofs.WireShape
