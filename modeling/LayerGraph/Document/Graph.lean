import LayerGraph.Document.Basic
import LayerGraph.Graph.Audit
import LayerGraph.Graph.Basic
import LayerGraph.Json.Writer
set_option autoImplicit false

namespace LayerGraph

open Document

namespace Node

def toValue (node : Node) : Value :=
  .object [("id", .str node.id), ("kind", .str node.kind), ("label", .str node.label),
    ("params", .object node.params)]

def decode : Decoder Node := .model "GraphNode" fun fields =>
  Node.mk <$> required fields "id" .text <*> required fields "kind" .text ["type"]
    <*> defaulted fields "label" .text "" <*> defaulted fields "params" .fields []

end Node

namespace Edge

def toValue (edge : Edge) : Value :=
  .object [("id", .str edge.id), ("source", .str edge.source), ("target", .str edge.target),
    ("port", .ofOption .str edge.slot)]

def decode : Decoder Edge := .model "GraphEdge" fun fields =>
  Edge.mk <$> required fields "id" .text <*> required fields "source" .text ["from"]
    <*> required fields "target" .text ["to"]
    <*> defaulted fields "port" (.optional .text) none

end Edge

namespace Training

def toValue (t : Training) : Value :=
  .object [("task", .str t.task.name), ("num_classes", .ofOption .int t.classes),
    ("loss", .str t.loss.name), ("optimizer", .str t.optimizer.name),
    ("learning_rate", .float t.learningRate), ("batch_size", .int t.batchSize),
    ("epochs", .int t.epochs), ("mixed_precision", .bool t.mixedPrecision),
    ("device_pref", .str t.device.name)]

def decodeFields (fields : Fields) : Checked Training :=
  let d : Training := {}
  Training.mk <$> defaulted fields "task" (.among Task.all Task.name) d.task
    <*> defaulted fields "num_classes" (.optional .integer) d.classes
    <*> defaulted fields "loss" (.among Loss.all Loss.name) d.loss
    <*> defaulted fields "optimizer" (.among Optimizer.all Optimizer.name) d.optimizer
    <*> defaulted fields "learning_rate" .float d.learningRate
    <*> defaulted fields "batch_size" .integer d.batchSize
    <*> defaulted fields "epochs" .integer d.epochs
    <*> defaulted fields "mixed_precision" .flag d.mixedPrecision
    <*> defaulted fields "device_pref" (.among Device.all Device.name) d.device

def decode : Decoder Training := .model "TrainingConfig" decodeFields

end Training

def ElementType.decode : Decoder ElementType := .among ElementType.all ElementType.name

namespace InputSpec

def toValue (spec : InputSpec) : Value :=
  .object [("shape", .list (spec.shape.map .int)), ("dtype", .str spec.type.name)]

def decodeFields (fields : Fields) : Checked InputSpec :=
  let d : InputSpec := {}
  InputSpec.mk <$> defaulted fields "shape" (.list .integer) d.shape
    <*> defaulted fields "dtype" ElementType.decode d.type

def decode : Decoder InputSpec := .model "InputSpec" decodeFields

end InputSpec

namespace Graph

def toValue (graph : Graph) : Value :=
  .object [("nodes", .list (graph.nodes.map (·.toValue))),
    ("edges", .list (graph.edges.map (·.toValue))), ("training", graph.training.toValue),
    ("input_spec", graph.input.toValue)]

def decode : Decoder Graph := .model "Graph" fun fields =>
  Graph.mk <$> defaulted fields "nodes" (.list Node.decode) []
    <*> defaulted fields "edges" (.list Edge.decode) []
    <*> defaulted fields "training" Training.decode {}
    <*> defaulted fields "input_spec" InputSpec.decode {} ["inputSpec"]

def ofValue (v : Value) : Except Rejection Graph := (decode v).orReject "Graph"

def document (graph : Graph) (columns : Option Nat := some 2) : String :=
  Json.write graph.toValue columns

/-- No param has more values within each other. -/
def nestsWithin (graph : Graph) (levels : Nat) : Bool :=
  graph.nodes.all fun node => node.params.all fun (_, v) => decide (v.depth ≤ levels)

def dump (graph : Graph) (nesting : Nat) (columns : Option Nat := some 2) : Except Fault String :=
  if graph.nestsWithin nesting then .ok (graph.document columns) else .error .nestedTooDeep

end Graph

def Severity.decode : Decoder Severity := .among Severity.all Severity.name

namespace Issue

def toValue (issue : Issue) : Value :=
  .object [("level", .str issue.severity.name), ("message", .str issue.message),
    ("node_id", .ofOption .str issue.node)]

def decode : Decoder Issue := .model "GraphIssue" fun fields =>
  Issue.mk <$> required fields "level" Severity.decode <*> required fields "message" .text
    <*> defaulted fields "node_id" (.optional .text) none

end Issue

end LayerGraph
