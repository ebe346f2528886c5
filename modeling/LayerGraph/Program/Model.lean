import LayerGraph.Graph.Order
import LayerGraph.Layer.Basic
import LayerGraph.Program.Name
set_option autoImplicit false

namespace LayerGraph.Program

structure Declaration where
  name : String
  call : String
  deriving DecidableEq, Repr

structure Statement where
  target : String
  expression : String
  unpack : Bool := false
  deriving DecidableEq, Repr

structure Model where
  className : String
  inputs : List String := []
  declarations : List Declaration := []
  statements : List Statement := []
  result : List String := []
  /-- The program has to define the residual block. -/
  residual : Bool := false
  deriving DecidableEq, Repr

/-- The value of a parameter in a call; where the default is a whole number, so is the value. -/
def argumentValue (p : Param) (v : Value) : Value :=
  match p.default with
  | .int _ => v.whole
  | _ => v

def arguments (fields : Fields) : Except Fault String := do
  let shown ← fields.mapM fun (key, v) => return key ++ "=" ++ (← v.write)
  return ", ".intercalate shown

def moduleArguments (layer : Layer) (node : Node) : Fields :=
  let resolved := layer.resolve node.params
  layer.schema.map fun (key, p) => (key, argumentValue p (resolved.get key))

def moduleCall (layer : Layer) (module : String) (node : Node) : Except Fault String := do
  return module ++ "(" ++ (← arguments (moduleArguments layer node)) ++ ")"

/-- A model in the making: the names of the tensors by node, and the nodes by the names taken. -/
structure Draft where
  model : Model
  tensors : Table String := []
  owners : Table String := []
  warnings : List String := []

namespace Draft

def numbered (owners : Table String) (base : String) : String :=
  let form := fun (n : Nat) => base ++ "_" ++ Text.decimal (n + 2 : Nat)
  (((List.range (owners.length + 1)).map form).find? fun name => !owners.has name).getD base

def nameFor (owners : Table String) (id : String) : String × List String :=
  let base := identifier id
  match owners.get? base with
  | none => (base, [])
  | some owner =>
    let name := numbered owners base
    (name, [id ++ ": identifier '" ++ base ++ "' is shared with node '" ++ owner
      ++ "', renamed to '" ++ name ++ "'"])

def addInput (draft : Draft) (node : Node) : Draft :=
  let name := inputName draft.model.inputs.length
  { draft with
    model := { draft.model with inputs := draft.model.inputs ++ [name] }
    tensors := draft.tensors.put node.id name }

def operands (draft : Draft) (graph : Graph) (id : String) : List String :=
  (graph.sources id).filterMap draft.tensors.get?

/-- The draft with a graph output, which stands for the tensors that lead into it. -/
def addOutput (draft : Draft) (node : Node) (operands : List String) : Draft :=
  let tensor := match operands with
    | [] => inputName 0
    | [tensor] => tensor
    | _ => "(" ++ ", ".intercalate operands ++ ")"
  { draft with
    model := { draft.model with result := draft.model.result ++ [tensor] }
    tensors := draft.tensors.put node.id tensor }

def compile (layer : Layer) (node : Node) (name : String) (operands : List String) :
    Except Fault (Option Declaration × String) :=
  let source := operands.headD (inputName 0)
  if node.kind = "Add" then .ok (none, " + ".intercalate operands)
  else if node.kind = "Concat" then do
    let dim ← ((layer.resolve node.params).get "dim").write
    return (none, "torch.cat([" ++ ", ".intercalate operands ++ "], dim=" ++ dim ++ ")")
  else
    match layer.module with
    | none => .ok (none, source)
    | some module => do
      let call ← moduleCall layer module node
      return (some ⟨name, call⟩, "self." ++ name ++ "(" ++ source ++ ")")

def addLayer (draft : Draft) (layer : Layer) (node : Node) (operands : List String) :
    Except Fault Draft := do
  let (name, warnings) := nameFor draft.owners node.id
  let (declaration, expression) ← compile layer node name operands
  let model := draft.model
  return {
    model := { model with
      declarations := model.declarations ++ declaration.toList
      statements := model.statements ++ [⟨name, expression, layer.stateful⟩]
      residual := model.residual || node.kind == "ResidualBlock" }
    tensors := draft.tensors.put node.id name
    owners := draft.owners.put name node.id
    warnings := draft.warnings ++ warnings }

def add (catalogue : Catalogue) (graph : Graph) (draft : Draft) (node : Node) :
    Except Fault Draft := do
  let layer ← catalogue.find node.kind
  let operands := draft.operands graph node.id
  if node.kind = Graph.inputKind then return draft
  else if node.kind = Graph.outputKind then return draft.addOutput node operands
  else draft.addLayer layer node operands

/-- The draft of a graph: inputs are named before everything else. -/
def ofGraph (catalogue : Catalogue) (graph : Graph) (className : String) : Except Fault Draft :=
  let ordered := graph.ordered
  let start : Draft :=
    (ordered.filter (·.kind == Graph.inputKind)).foldl addInput { model := { className } }
  ordered.foldlM (add catalogue graph) start

end Draft

def Model.ofGraph (catalogue : Catalogue) (graph : Graph) (className : String) :
    Except Fault (Model × List String) :=
  (Draft.ofGraph catalogue graph className).map fun draft => (draft.model, draft.warnings)

end LayerGraph.Program
