import LayerGraph.Graph.Basic
import LayerGraph.Severity
set_option autoImplicit false

namespace LayerGraph

inductive Flaw where
  | noInput
  | noOutput
  | unknownNode (edge id : String)
  | unread (node : Node)
  | repeatedEdge (source target : String)
  deriving DecidableEq, Repr

namespace Flaw

def severity : Flaw → Severity
  | .noInput | .noOutput | .unknownNode .. => .error
  | .unread _ | .repeatedEdge .. => .warning

def message : Flaw → String
  | .noInput => "Graph needs at least one Input node"
  | .noOutput => "Graph needs at least one Output node"
  | .unknownNode edge id => "Edge " ++ edge ++ " references unknown node: " ++ id
  | .unread node => node.name ++ " is not connected to any downstream node"
  | .repeatedEdge source target =>
    "Multiple edges detected between " ++ source ++ " and " ++ target

def node? : Flaw → Option String
  | .unread node => some node.id
  | _ => none

end Flaw

namespace Graph

def missingKinds (graph : Graph) : List Flaw :=
  (if graph.nodes.any (·.kind == inputKind) then [] else [.noInput])
    ++ if graph.nodes.any (·.kind == outputKind) then [] else [.noOutput]

def danglingEnds (graph : Graph) : List Flaw :=
  graph.edges.flatMap fun e =>
    ([e.source, e.target].filter fun id => !graph.declares id).map (.unknownNode e.id)

def unreadNodes (graph : Graph) : List Flaw :=
  (graph.nodes.filter fun n =>
    n.kind != inputKind && !graph.edges.any (·.source == n.id)).map .unread

/-- The edges that join the same ends as an edge before them. -/
def repeats : List (String × String) → List Edge → List Flaw
  | _, [] => []
  | seen, e :: edges =>
    if (e.source, e.target) ∈ seen then .repeatedEdge e.source e.target :: repeats seen edges
    else repeats ((e.source, e.target) :: seen) edges

def flaws (graph : Graph) : List Flaw :=
  graph.missingKinds ++ graph.danglingEnds ++ graph.unreadNodes ++ repeats [] graph.edges

end Graph

structure Issue where
  severity : Severity
  message : String
  node : Option String := none
  deriving DecidableEq, Repr

def Flaw.issue (flaw : Flaw) : Issue := ⟨flaw.severity, flaw.message, flaw.node?⟩

def Graph.issues (graph : Graph) : List Issue := graph.flaws.map (·.issue)

end LayerGraph
