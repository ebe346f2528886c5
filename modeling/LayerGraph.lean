import LayerGraph.Service.Routes
import LayerGraph.Proofs.Graph.Cycles
import LayerGraph.Proofs.Graph.Evaluation
import LayerGraph.Proofs.Graph.Faults
import LayerGraph.Proofs.Graph.Locality
import LayerGraph.Proofs.Graph.Origins
import LayerGraph.Proofs.Graph.Precedence
import LayerGraph.Proofs.Graph.Proper
import LayerGraph.Proofs.Graph.Symbolic
import LayerGraph.Proofs.Graph.Verdicts
import LayerGraph.Proofs.Layer.Agreement
import LayerGraph.Proofs.Layer.Collapsing
import LayerGraph.Proofs.Layer.Windows
import LayerGraph.Proofs.Normal.Entries
import LayerGraph.Proofs.Normal.Meaning
import LayerGraph.Proofs.Normal.Padding
import LayerGraph.Proofs.Normal.Reading
import LayerGraph.Proofs.Normal.Troubles
import LayerGraph.Proofs.Normal.Typing
import LayerGraph.Proofs.Program.Arguments
import LayerGraph.Proofs.Program.Branches
import LayerGraph.Proofs.Program.Dangling
import LayerGraph.Proofs.Program.Diagnostics
import LayerGraph.Proofs.Program.Emission
import LayerGraph.Proofs.Program.Forward
import LayerGraph.Proofs.Program.Header
import LayerGraph.Proofs.Program.Literals
import LayerGraph.Proofs.Program.Methods
import LayerGraph.Proofs.Program.Samples
