import LayerGraph.Document.Graph
import LayerGraph.Graph.Normal
set_option autoImplicit false

namespace LayerGraph

open Document

inductive ImportError where
  | fault (fault : Fault)
  | rejected (rejection : Rejection)
  deriving DecidableEq, Repr

namespace Import

/-- Of the entries of a list only those that are objects count; texts and objects list none. A
value that is not set lists nothing. -/
def entries (v : Value) : Except Fault (List Fields) :=
  match v with
  | .list items => .ok (items.filterMap fun | .object fields => some fields | _ => none)
  | .str _ | .object _ => .ok []
  | v => if v.truthy then .error (.notIterable v.form) else .ok []

def wordOf (fields : Fields) (key other : String) : Except Fault String :=
  ((fields.get key).orElse (fields.get other) |>.orElse (.str "")).display

def paramsOf (fields : Fields) : Fields :=
  match fields.get "params" with
  | .object params => params
  | _ => []

def node? (catalogue : Catalogue) (fields : Fields) : Except Fault (Option Node) :=
  match fields.get? "id" with
  | none => .ok none
  | some id => do
    let id ← id.display
    let kind ← wordOf fields "kind" "type"
    let label ← ((fields.get "label").orElse (.str "")).display
    let node ← Node.normalize catalogue ⟨id, kind, label, paramsOf fields⟩
    return some node

def nodes (catalogue : Catalogue) : List Fields → Except Fault (List Node)
  | [] => .ok []
  | fields :: more => do
    let node ← node? catalogue fields
    let rest ← nodes catalogue more
    return node.toList ++ rest

def edgeId (fields : Fields) (source target : String) : Except Fault String :=
  ((fields.get "id").orElse (.str ("e-" ++ source ++ "-" ++ target))).display

def slotOf (fields : Fields) : Except Rejection (Option String) :=
  let slot := (fields.get "port").orElse (fields.get "targetHandle")
  ((Decoder.optional .text slot).under (.key "port")).orReject "GraphEdge"

/-- Reads an edge between known ids; an entry without two such ends is none. Each end has two keys,
and the second counts if the first is not there. -/
def edge? (ids : List String) (fields : Fields) : Except ImportError (Option Edge) :=
  match (fields.get? "source").getD (fields.get "from"),
    (fields.get? "target").getD (fields.get "to") with
  | .null, _ | _, .null => .ok none
  | source, target => do
    let source ← source.display.mapError .fault
    let target ← target.display.mapError .fault
    if ids.contains source && ids.contains target then
      let id ← (edgeId fields source target).mapError .fault
      let slot ← (slotOf fields).mapError .rejected
      return some ⟨id, source, target, slot⟩
    else return none

def edges (ids : List String) : List Fields → Except ImportError (List Edge)
  | [] => .ok []
  | fields :: more => do
    let edge ← edge? ids fields
    let rest ← edges ids more
    return edge.toList ++ rest

/-- The input spec of a document, else one with the shape of the first graph input. -/
def inputFields (fields : Fields) (nodes : List Node) : Fields :=
  match (fields.get "input_spec").orElse (fields.get "inputSpec") with
  | .object spec => spec
  | _ =>
    match nodes.find? (·.kind == Graph.inputKind) with
    | none => []
    | some node =>
      let shape := node.params.get "shape"
      if shape.truthy then [("shape", shape)] else []

def trainingFields (fields : Fields) : Fields :=
  match fields.get "training" with
  | .object training => training
  | _ => []

def graph (catalogue : Catalogue) (fields : Fields) : Except ImportError Graph := do
  let nodeEntries ← (entries (fields.get "nodes")).mapError .fault
  let nodes ← (nodes catalogue nodeEntries).mapError .fault
  let edgeEntries ← (entries (fields.get "edges")).mapError .fault
  let edges ← edges (nodes.map (·.id)) edgeEntries
  let training := (Training.decodeFields (trainingFields fields)).under (.key "training")
  let input := (InputSpec.decodeFields (inputFields fields nodes)).under (.key "input_spec")
  (Graph.mk nodes edges <$> training <*> input).orReject "Graph" |>.mapError .rejected

end Import

def Graph.ofDocument (catalogue : Catalogue) : Value → Except ImportError Graph
  | .object fields => Import.graph catalogue fields
  | v => .error (.fault (.notAnObject v.form))

end LayerGraph
