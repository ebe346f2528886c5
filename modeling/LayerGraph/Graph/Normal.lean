import LayerGraph.Graph.Basic
import LayerGraph.Layer.Standard
import LayerGraph.Text.Lines
set_option autoImplicit false

/-!
A normal graph spells its kinds as the catalogue does, and each of its nodes of a known kind has
exactly the parameters of that kind, each with a value of the parameter's type. Edges that name no
node are dropped.
-/

namespace LayerGraph

namespace Normal

def aliases : Table String := [
  ("maxpool", "MaxPool2d"),
  ("avgpool", "AvgPool2d"),
  ("conv", "Conv2d"),
  ("dense", "Linear"),
  ("fc", "Linear"),
  ("batchnorm", "BatchNorm2d"),
  ("embedding", "Embeddings"),
  ("concatenate", "Concat"),
  ("residual", "ResidualBlock")]

def activations : Table String := [
  ("relu", "ReLU"),
  ("leakyrelu", "LeakyReLU"),
  ("leaky_relu", "LeakyReLU"),
  ("sigmoid", "Sigmoid"),
  ("tanh", "Tanh")]

def activation (params : Fields) : Except Fault String := do
  let choice := (params.get "activation").orElse (params.get "function") |>.orElse (.str "relu")
  let word ← choice.display
  return (activations.get? (Text.lower (Text.trim word))).getD "ReLU"

/-- The catalogue's spelling of a kind. Blanks and case do not count, and some other words are
known; any other kind is kept without its blanks. -/
def kind (catalogue : Catalogue) (raw : String) (params : Fields) : Except Fault String :=
  let word := Text.trim raw
  let lowered := Text.lower word
  if (catalogue.find? word).isSome then .ok word
  else
    match catalogue.reverse.find? fun (layer : Layer) => Text.lower layer.kind == lowered with
    | some layer => .ok layer.kind
    | none =>
      if lowered = "activation" then activation params
      else .ok (((activations.get? lowered).or (aliases.get? lowered)).getD word)

/-- A whole number, or a default for what is none. The first item of a list counts, and flags do
not. -/
def size (default : Int) : Value → Except Fault Int
  | .int n => .ok n
  | .float x => (Value.float x).toInt
  | .list (v :: _) => size default v
  | .str s =>
    match Numeral.integer s with
    | .ok n => .ok n
    | .error _ => .ok default
  | _ => .ok default

def number (default : Value) : Value → Value
  | .bool b => .int (if b then 1 else 0)
  | .int n => .int n
  | .float x => .float x
  | .str s =>
    match Numeral.integer (Text.trim s) with
    | .ok n => .int n
    | .error _ =>
      match Numeral.float? (Text.trim s) with
      | some x => .float x
      | none => default
  | _ => default

def flagWords : List String := ["true", "1", "yes", "on"]

def flag : Value → Bool
  | .str s => flagWords.contains (Text.lower (Text.trim s))
  | v => v.truthy

def sizeItems? : Value → Option (List Value)
  | .list items => some items
  | .str s => some (((Text.splitOn ',' s).filter fun part => !(Text.trim part).isEmpty).map .str)
  | _ => none

def sizes (items : List Value) : Except Fault Value :=
  (items.mapM (size (-1))).map fun ns => .list (ns.map .int)

/-- A value of the type of a parameter; the default for null and for values of no use. -/
def value (p : Param) (v : Value) : Except Fault Value :=
  match v, p.type with
  | .null, _ => .ok p.default
  | v, .boolean => .ok (.bool (flag v))
  | .list items, .number => .ok (.list (items.map (number p.default)))
  | v, .number => .ok (number p.default v)
  | v, .numbers =>
    match sizeItems? v with
    | some items => sizes items
    | none => .ok p.default
  | v, .select =>
    let options := p.options.getD []
    if options.isEmpty || options.any (fun o => v == .str o) then .ok v else .ok p.default
  | v, .text => .ok v

/-- Padding that keeps the size: half of the kernel, whose first size counts. -/
def samePadding (params : Fields) : Except Fault Fields := do
  let padding ← ((params.get? "padding").getD (.str "")).display
  if Text.lower (Text.trim padding) = "same" then
    let kernel ← size 3 (params.get "kernel_size")
    return params.put "padding" (.int (if 0 < kernel then kernel / 2 else 0))
  else return params

def ofSchema (schema : Schema) (params : Fields) : Except Fault Fields :=
  schema.mapM fun (key, p) =>
    match params.get? key with
    | some v => (value p v).map (key, ·)
    | none => .ok (key, p.default)

def params (catalogue : Catalogue) (kind : String) (given : Fields) : Except Fault Fields :=
  match catalogue.find? kind with
  | none => .ok given
  | some layer => do
    let given ← if kind = "Conv2d" then samePadding given else .ok given
    ofSchema layer.schema given

end Normal

/-- The node with the kind and the parameters of the catalogue; its kind is its label if it has
none. -/
def Node.normalize (catalogue : Catalogue) (node : Node) : Except Fault Node := do
  let kind ← Normal.kind catalogue node.kind node.params
  let params ← Normal.params catalogue kind node.params
  return ⟨node.id, kind, if node.label.isEmpty then kind else node.label, params⟩

def Graph.normalize (catalogue : Catalogue) (graph : Graph) : Except Fault Graph := do
  let nodes ← graph.nodes.mapM (·.normalize catalogue)
  return { graph with nodes, edges := graph.inner }

end LayerGraph
