import LayerGraph.ElementType
import LayerGraph.Training
import LayerGraph.Value
set_option autoImplicit false

/-!
A graph lists layers as nodes and the flow of tensors between them as edges. Nothing in the type
forbids repeated ids, edges to ids that no node has, or cycles; what they mean is said by the
analyses.
-/

namespace LayerGraph

structure Node where
  id : String
  kind : String
  label : String := ""
  params : Fields := []
  deriving DecidableEq, Repr

def Node.name (node : Node) : String := if node.label.isEmpty then node.id else node.label

structure Edge where
  id : String
  source : String
  target : String
  slot : Option String := none
  deriving DecidableEq, Repr

/-- The tensor that graph inputs stand for unless they say otherwise. -/
structure InputSpec where
  shape : List Int := [1, 3, 224, 224]
  type : ElementType := .float32
  deriving DecidableEq, Repr

structure Graph where
  nodes : List Node := []
  edges : List Edge := []
  training : Training := {}
  input : InputSpec := {}
  deriving DecidableEq, Repr

namespace Graph

def inputKind : String := "Input"

def outputKind : String := "Output"

def ids (graph : Graph) : List String := graph.nodes.map (·.id)

def declares (graph : Graph) (id : String) : Bool := graph.nodes.any (·.id == id)

/-- The node with an id, the last one if there are several. -/
def node? (graph : Graph) (id : String) : Option Node := graph.nodes.reverse.find? (·.id == id)

def incoming (graph : Graph) (id : String) : List Edge := graph.edges.filter (·.target == id)

def sources (graph : Graph) (id : String) : List String := (graph.incoming id).map (·.source)

def inner (graph : Graph) : List Edge :=
  graph.edges.filter fun e => graph.declares e.source && graph.declares e.target

end Graph

end LayerGraph
