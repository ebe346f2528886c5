import LayerGraph.Document.Graph
import LayerGraph.Graph.Inference
set_option autoImplicit false

namespace LayerGraph

open Document

namespace NodeResult

def toValue (result : NodeResult) : Value :=
  .object [("node_id", .str result.node),
    ("shape", .ofOption (fun shape => .list (shape.map .int)) result.shape),
    ("dtype", .ofOption (fun (t : ElementType) => .str t.name) result.type),
    ("status", .str result.status.name), ("messages", .list (result.messages.map .str))]

def decode : Decoder NodeResult := .model "ShapeResult" fun fields =>
  NodeResult.mk <$> required fields "node_id" .text
    <*> defaulted fields "shape" (.optional (.list .integer)) none
    <*> defaulted fields "dtype" (.optional ElementType.decode) none
    <*> defaulted fields "status" (.among Status.all Status.name) .pending
    <*> defaulted fields "messages" (.list .text) []

end NodeResult

namespace Context

def toValue (context : Context) : Value :=
  .object [("results", .object (context.results.map fun (key, r) => (key, r.toValue))),
    ("trace", .list (context.trace.map .str)), ("has_errors", .bool context.hasErrors)]

def decode : Decoder Context := .model "ShapeContext" fun fields =>
  Context.mk <$> defaulted fields "results" (.table NodeResult.decode) []
    <*> defaulted fields "trace" (.list .text) []
    <*> defaulted fields "has_errors" .flag false

def ofValue (v : Value) : Except Rejection Context := (decode v).orReject "ShapeContext"

end Context

/-- What inference and the audit say about a graph; the estimate is left out if there are errors.
-/
structure Report where
  context : Context
  issues : List Issue := []
  parameters : Option Int := none
  deriving DecidableEq, Repr

namespace Report

def toValue (report : Report) : Value :=
  .object [("context", report.context.toValue),
    ("issues", .list (report.issues.map (·.toValue))),
    ("total_params", .ofOption .int report.parameters)]

def decode : Decoder Report := .model "InferenceReport" fun fields =>
  Report.mk <$> required fields "context" Context.decode
    <*> defaulted fields "issues" (.list Issue.decode) []
    <*> defaulted fields "total_params" (.optional .integer) none

end Report

end LayerGraph
