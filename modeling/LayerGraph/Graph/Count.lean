import LayerGraph.Graph.Basic
import LayerGraph.Layer.Basic
set_option autoImplicit false

namespace LayerGraph

/-- The trainable parameters of a node. Unknown kinds, kinds without any and nodes with sizes that
are no numbers count zero; only a size beyond all bounds is a fault. -/
def Node.count (catalogue : Catalogue) (node : Node) : Except Fault Int :=
  match catalogue.find? node.kind with
  | none => .ok 0
  | some layer =>
    match layer.count with
    | none => .ok 0
    | some count =>
      match count (layer.resolve node.params) with
      | .error .infinity => .error .infinity
      | .error _ => .ok 0
      | .ok n => .ok n

def Graph.countParameters (catalogue : Catalogue) (graph : Graph) : Except Fault Int :=
  graph.nodes.foldlM (fun total node => return total + (← node.count catalogue)) 0

end LayerGraph
