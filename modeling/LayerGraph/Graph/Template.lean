import LayerGraph.Graph.Basic
import LayerGraph.Layer.Standard
set_option autoImplicit false

namespace LayerGraph.Template

def node (layer : Layer) (id label : String) (given : Fields := []) : Node :=
  ⟨id, layer.kind, label, layer.resolve given⟩

def chain : List String → List Edge
  | source :: target :: more =>
    { id := source ++ "-" ++ target, source, target } :: chain (target :: more)
  | _ => []

def sizes (ns : List Int) : Value := .list (ns.map .int)

def input (id label : String) (shape : List Int) (more : Fields := []) : Node :=
  node Layer.input id label (("shape", sizes shape) :: more)

def output : Node := node Layer.output "output" "Output"

def linear (id label : String) (inputs outputs : Int) : Node :=
  node Layer.linear id label [("in_features", .int inputs), ("out_features", .int outputs)]

def flatten : Node := node Layer.flatten "flatten" "Flatten"

def empty : Graph where
  nodes := [input "input" "Input" [1, 3, 224, 224], output]
  edges := chain ["input", "output"]
  input := { shape := [1, 3, 224, 224] }

def perceptron : Graph where
  nodes := [
    input "input" "Input" [1, 784],
    flatten,
    linear "fc1" "Linear 1" 784 256,
    node Layer.relu "relu1" "ReLU 1",
    node Layer.dropout "dropout" "Dropout" [("p", .float (Layer.hundredth 20))],
    linear "fc2" "Linear 2" 256 10,
    output]
  edges := chain ["input", "flatten", "fc1", "relu1", "dropout", "fc2", "output"]
  training := { batchSize := 64 }
  input := { shape := [1, 784] }

def convolutional : Graph where
  nodes := [
    input "image" "Image" [1, 3, 224, 224],
    node Layer.convolution "conv1" "Conv7x7"
      [("in_channels", .int 3), ("out_channels", .int 64), ("kernel_size", .int 7),
        ("stride", .int 2), ("padding", .int 3)],
    node Layer.batchNorm2d "bn1" "BN1" [("num_features", .int 64)],
    node Layer.relu "relu1" "ReLU",
    node Layer.maxPool "pool1" "MaxPool"
      [("kernel_size", .int 3), ("stride", .int 2), ("padding", .int 1)],
    node Layer.convolution "conv2" "Conv3x3"
      [("in_channels", .int 64), ("out_channels", .int 128), ("kernel_size", .int 3),
        ("padding", .int 1)],
    node Layer.relu "relu2" "ReLU 2",
    flatten,
    linear "classifier" "Classifier" (128 * 56 * 56) 1000,
    output]
  edges := chain ["image", "conv1", "bn1", "relu1", "pool1", "conv2", "relu2", "flatten",
    "classifier", "output"]
  training := { classes := some 1000, batchSize := 16 }
  input := { shape := [1, 3, 224, 224] }

def residual : Graph where
  nodes := [
    input "image" "Image" [1, 64, 56, 56],
    node Layer.residual "res1" "ResBlock1" [("in_channels", .int 64), ("out_channels", .int 64)],
    node Layer.residual "res2" "ResBlock2"
      [("in_channels", .int 64), ("out_channels", .int 128), ("stride", .int 2),
        ("use_projection", .bool true)],
    node Layer.relu "relu" "Post-ReLU",
    node Layer.adaptivePool "pool" "Adaptive Pool" [("output_size", .int 1)],
    flatten,
    linear "classifier" "Classifier" 128 10,
    output]
  edges := chain ["image", "res1", "res2", "relu", "pool", "flatten", "classifier", "output"]
  training := { epochs := 30 }
  input := { shape := [1, 64, 56, 56] }

def sequenceClassifier : Graph where
  nodes := [
    input "tokens" "Tokens" [1, 128] [("dtype", .str "int64")],
    node Layer.embedding "embedding" "Embedding"
      [("num_embeddings", .int 20000), ("embedding_dim", .int 256)],
    node Layer.lstm "lstm" "LSTM"
      [("input_size", .int 256), ("hidden_size", .int 128), ("batch_first", .bool true)],
    flatten,
    linear "classifier" "Classifier" (128 * 128) 2,
    output]
  edges := chain ["tokens", "embedding", "lstm", "flatten", "classifier", "output"]
  training := { classes := some 2, epochs := 5 }
  input := { shape := [1, 128], type := .int64 }

def branches : Graph where
  nodes := [
    input "input" "Features" [1, 4],
    linear "branch_a" "Branch A" 4 4,
    linear "branch_b" "Branch B" 4 6,
    node Layer.concat "concat" "Concat" [("dim", .int 1)],
    linear "head" "Head" 10 3,
    output]
  edges := [
    { id := "input-a", source := "input", target := "branch_a" },
    { id := "input-b", source := "input", target := "branch_b" },
    { id := "a-concat", source := "branch_a", target := "concat" },
    { id := "b-concat", source := "branch_b", target := "concat" }]
    ++ chain ["concat", "head", "output"]
  training := { classes := some 3 }
  input := { shape := [1, 4] }

def all : Table Graph := [
  ("empty", empty),
  ("mlp", perceptron),
  ("simple-cnn", convolutional),
  ("residual", residual),
  ("lstm-classifier", sequenceClassifier),
  ("two-branch", branches)]

def names : List String := all.map (·.1)

def find (name : String) : Except Fault Graph :=
  match all.get? name with
  | some graph => .ok graph
  | none => .error (.unknownKey name)

end LayerGraph.Template
