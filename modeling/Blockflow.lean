import Blockflow.Main
import Blockflow.Proofs.Arena.History
import Blockflow.Proofs.Compile.Chains
import Blockflow.Proofs.Compile.Cycles
import Blockflow.Proofs.Compile.Effects
import Blockflow.Proofs.Compile.Totality
import Blockflow.Proofs.Expand.Ancestry
import Blockflow.Proofs.Expand.Termination
import Blockflow.Proofs.Expand.Uniqueness
import Blockflow.Proofs.Graph.Batches
import Blockflow.Proofs.Graph.Diagnostics
import Blockflow.Proofs.Graph.Discipline
import Blockflow.Proofs.Literal.Prototypes
import Blockflow.Proofs.Machine.Budget
import Blockflow.Proofs.Native.Wrappers
import Blockflow.Proofs.Scope.Common
import Blockflow.Proofs.Session.Callees
import Blockflow.Proofs.Session.FrameSafety
import Blockflow.Proofs.Session.Presentation
import Blockflow.Proofs.Session.Soundness
import Blockflow.Text.Lines
