import ThreeAddress.Compilation
import ThreeAddress.Execution
import ThreeAddress.Files.Tree
import ThreeAddress.Interchange
import ThreeAddress.Main
import ThreeAddress.Files.Lookup
import ThreeAddress.Files.Operations
import ThreeAddress.Proofs.Entering
import ThreeAddress.Proofs.PrintFrame
import ThreeAddress.Proofs.Simulation
import ThreeAddress.Proofs.Calls
import ThreeAddress.Proofs.Mistakes
import ThreeAddress.Proofs.Blocks
import ThreeAddress.Proofs.Pieces
import ThreeAddress.Proofs.Reading
import ThreeAddress.Proofs.Output
import ThreeAddress.Proofs.Modes
import ThreeAddress.Proofs.Keeping
import ThreeAddress.Proofs.Outcome
import ThreeAddress.Proofs.StaleStream
import ThreeAddress.Proofs.References
import ThreeAddress.Proofs.NumericTargets
import ThreeAddress.Proofs.Accounting
import ThreeAddress.Proofs.JsonTokens
import ThreeAddress.Proofs.JsonText
import ThreeAddress.Proofs.JsonObjects
import ThreeAddress.Proofs.JsonForms
import ThreeAddress.Proofs.BindingTable
import ThreeAddress.Proofs.Extension
import ThreeAddress.Proofs.Joining
import ThreeAddress.Proofs.LabelTable
import ThreeAddress.Proofs.InstText
import ThreeAddress.Proofs.Log
import ThreeAddress.Proofs.Sequence
import ThreeAddress.Proofs.Delivery
