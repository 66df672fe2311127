import Fenceline.Main
import Fenceline.Proofs.Grammar.Check
import Fenceline.Proofs.Grammar.Confinement
import Fenceline.Proofs.Grammar.TestOutput
import Fenceline.Proofs.Run.Tested
import Fenceline.Proofs.Run.TestTree
import Fenceline.Proofs.Run.OpenNames
import Fenceline.Proofs.Location.Report
import Fenceline.Proofs.Location.Unplaced
import Fenceline.Proofs.Run.Cuts
import Fenceline.Proofs.Run.Ending
import Fenceline.Proofs.Run.History
import Fenceline.Proofs.Run.Linted
import Fenceline.Proofs.Sample.Dedent
import Fenceline.Proofs.Sample.Extraction
import Fenceline.Proofs.Sample.Greedy
import Fenceline.Proofs.Sample.Order
import Fenceline.Proofs.Sample.Passages
import Fenceline.Proofs.Sample.Verbatim
import Fenceline.Proofs.Run.TestFailures
import Fenceline.Proofs.Location.Growing
import Fenceline.Proofs.Location.Native
import Fenceline.Proofs.Line.Arrival
import Fenceline.Proofs.Sample.Returns
import Fenceline.Proofs.Run.Served
import Fenceline.Proofs.Run.Requested
import Fenceline.Proofs.Location.Kept
import Fenceline.Proofs.Location.Hidden
import Fenceline.Proofs.Location.Spaced
import Fenceline.Proofs.Config.Effective
import Fenceline.Proofs.Config.Verdict
import Fenceline.Proofs.Run.Unreadable
import Fenceline.Proofs.Files.Found
import Fenceline.Proofs.CommandLine.Collected
import Fenceline.Proofs.Grammar.Coloured
import Fenceline.Proofs.Location.Decoded
