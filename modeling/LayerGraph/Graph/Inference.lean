import LayerGraph.Graph.Order
import LayerGraph.Layer.Basic
set_option autoImplicit false

namespace LayerGraph

structure NodeResult where
  node : String
  shape : Option Shape := none
  type : Option ElementType := none
  status : Status := .pending
  messages : List String := []
  deriving DecidableEq, Repr

structure Context where
  results : Table NodeResult := []
  trace : List String := []
  hasErrors : Bool := false
  deriving DecidableEq, Repr

/-- What evaluation has to say about a node. -/
inductive Remark where
  | cycle
  | unknownKind (kind : String)
  | waiting
  | tooFewInputs (least : Nat)
  | tooManyInputs (most : Nat)
  | notSized (fault : Fault)
  | notChecked (fault : Fault)
  | found (finding : Finding)
  | noShape
  deriving DecidableEq, Repr

namespace Remark

def severity : Remark → Severity
  | .waiting => .warning
  | .found finding => finding.severity
  | _ => .error

def message : Remark → String
  | .cycle => "Cycle detected"
  | .unknownKind kind => "Unknown node kind '" ++ kind ++ "'"
  | .waiting => "Waiting for upstream nodes"
  | .tooFewInputs least => "Requires at least " ++ Text.decimal least ++ " input(s)"
  | .tooManyInputs most => "Supports up to " ++ Text.decimal most ++ " input(s)"
  | .notSized (.shape why) => why.message
  | .notSized fault => "Shape inference failed: " ++ fault.message
  | .notChecked fault => "Validation failed: " ++ fault.message
  | .found finding => finding.message
  | .noShape => "Unable to resolve an output shape"

def status (remarks : List Remark) : Status :=
  remarks.foldl (fun status remark => status.escalate remark.severity.status) .valid

end Remark

namespace Node

def result (node : Node) (shape : Option Shape) (type : Option ElementType)
    (remarks : List Remark) : NodeResult :=
  ⟨node.id, shape, type, Remark.status remarks, remarks.map (·.message)⟩

def inputShapes (feeds : List (Option NodeResult)) : List Shape :=
  feeds.filterMap fun result? => result?.bind (·.shape)

def arity (layer : Layer) (edges shapes : Nat) : List Remark :=
  (if shapes < edges then [.waiting] else [])
    ++ (if shapes < layer.minInputs then [.tooFewInputs layer.minInputs] else [])
    ++ match layer.maxInputs with
      | some most => if most < shapes then [.tooManyInputs most] else []
      | none => []

def sized (layer : Layer) (inputs : List Shape) (params : Fields) : Option Shape × List Remark :=
  match layer.shape inputs params with
  | .ok shape => (shape, [])
  | .error fault => (none, [.notSized fault])

def inputShape (node : Node) (spec : InputSpec) (shape : Option Shape) : Option Shape :=
  if node.kind = Graph.inputKind ∧ shape.all List.isEmpty then some spec.shape else shape

def checked (layer : Layer) (inputs : List Shape) (params : Fields) : List Remark :=
  match layer.check with
  | none => []
  | some check =>
    match check inputs params with
    | .ok findings => findings.map .found
    | .error fault => [.notChecked fault]

/-- A node without a shape is in error, whatever else was said. -/
def complete (shape : Option Shape) (remarks : List Remark) : List Remark :=
  if shape.isNone && Remark.status remarks != .error then remarks ++ [.noShape] else remarks

/-- The element type of a graph input: the declared one if it is known, else that of the input
spec. -/
def declaredType (spec : InputSpec) (declared : Value) : Except Fault ElementType :=
  match declared with
  | .str s => .ok ((ElementType.ofName? s).getD spec.type)
  | .list _ | .object _ => .error (.unhashable declared.form)
  | _ => .ok spec.type

/-- The element type of a node's output; most layers keep that of the first input that has one. -/
def outputType (node : Node) (spec : InputSpec) (params : Fields)
    (feeds : List (Option NodeResult)) : Except Fault (Option ElementType) :=
  if node.kind = Graph.inputKind then (declaredType spec (params.get "dtype")).map some
  else if node.kind = "Embeddings" then .ok (some .float32)
  else .ok (feeds.findSome? fun result? => result?.bind (·.type))

def evaluateAs (layer : Layer) (spec : InputSpec) (node : Node)
    (feeds : List (Option NodeResult)) : Except Fault NodeResult := do
  let inputs := inputShapes feeds
  let params := layer.resolve node.params
  let (sizedShape, sizing) := sized layer inputs params
  let shape := node.inputShape spec sizedShape
  let remarks :=
    complete shape
      (arity layer feeds.length inputs.length ++ sizing ++ checked layer inputs params)
  let type ← node.outputType spec params feeds
  return node.result shape type remarks

def evaluate (catalogue : Catalogue) (spec : InputSpec) (node : Node)
    (feeds : List (Option NodeResult)) : Except Fault NodeResult :=
  match catalogue.find? node.kind with
  | none => .ok (node.result none none [.unknownKind node.kind])
  | some layer => evaluateAs layer spec node feeds

def cycleResult (id : String) : NodeResult :=
  { node := id, status := .error, messages := [Remark.cycle.message] }

end Node

namespace Graph

def nameOf (graph : Graph) (id : String) : String := ((graph.node? id).map (·.name)).getD id

def traceLine (graph : Graph) (node : Node) (shape : Option Shape) : Except Fault String := do
  let label := node.name ++ " " ++ (← Shape.label shape)
  if node.kind = inputKind then return "Input " ++ label
  else return ", ".intercalate ((graph.sources node.id).map graph.nameOf) ++ " → " ++ label

/-- The lines that a node leaves in the trace; one of an unknown kind leaves none. -/
def traceLines (catalogue : Catalogue) (graph : Graph) (node : Node) (shape : Option Shape) :
    Except Fault (List String) :=
  if (catalogue.find? node.kind).isSome then (graph.traceLine node shape).map ([·]) else .ok []

structure Progress where
  results : Table NodeResult := []
  trace : List String := []

def advance (catalogue : Catalogue) (graph : Graph) (progress : Progress) (node : Node) :
    Except Fault Progress := do
  let feeds := (graph.sources node.id).map progress.results.get?
  let result ← node.evaluate catalogue graph.input feeds
  let lines ← graph.traceLines catalogue node result.shape
  return ⟨progress.results.put node.id result, progress.trace ++ lines⟩

def cycleResults (graph : Graph) : Table NodeResult :=
  graph.cyclic.foldl (fun results id => results.put id (Node.cycleResult id)) []

def infer (catalogue : Catalogue) (graph : Graph) : Except Fault Context := do
  let progress ← graph.ordered.foldlM (graph.advance catalogue) ⟨graph.cycleResults, []⟩
  return ⟨progress.results, progress.trace, progress.results.any (·.2.status == .error)⟩

end Graph

def Context.messages (context : Context) (status : String) : List String :=
  context.results.flatMap fun (_, result) =>
    if result.status.name == status then result.messages.map (result.node ++ ": " ++ ·) else []

end LayerGraph
