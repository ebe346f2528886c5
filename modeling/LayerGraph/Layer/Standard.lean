import LayerGraph.ElementType
import LayerGraph.Layer.Checking
import LayerGraph.Layer.Counting
import LayerGraph.Layer.Sizing
set_option autoImplicit false

namespace LayerGraph

namespace Layer

def one : Binary64 := .ofInt 1

def hundredth (n : Nat) : Binary64 := .ofDecimal false n (-2)

def sizeParam (label : String) (value : Int) (least : Int) : Param :=
  { label, type := .number, default := .int value, min := some (.ofInt least) }

def requiredSize (label : String) (value : Int) : Param :=
  { sizeParam label value 1 with required := true }

def spatialSize (label : String) (value : Int) : Param :=
  { sizeParam label value 1 with help := some "Int or pair" }

def axisParam (label : String) (value : Int) : Param :=
  { label, type := .number, default := .int value }

def flagParam (label : String) (value : Bool) : Param :=
  { label, type := .boolean, default := .bool value }

def input : Layer where
  kind := "Input"
  description := "Model input specification."
  category := "IO"
  schema := [
    ("shape",
      { label := "Shape", type := .numbers, default := .list []
        help := some "Use -1 for the dynamic batch dimension; empty uses the graph input spec" }),
    ("dtype",
      { label := "DType", type := .select, default := .null
        options := some (ElementType.all.map (·.name))
        help := some "Defaults to the graph input spec dtype" })]
  shape := Sizing.input
  minInputs := 0
  maxInputs := some 0

def output : Layer where
  kind := "Output"
  description := "Graph output placeholder."
  category := "IO"
  schema := []
  shape := Sizing.identity
  outputs := 0

def linear : Layer where
  kind := "Linear"
  description := "Fully-connected layer"
  category := "Core"
  schema := [
    ("in_features", requiredSize "In Features" 128),
    ("out_features", requiredSize "Out Features" 64),
    ("bias", flagParam "Bias" true)]
  shape := Sizing.linear
  check := some Checking.linear
  module := some "nn.Linear"
  count := some Counting.linear

def passthrough (kind description category : String) (schema : Schema) : Layer where
  kind := kind
  description := description
  category := category
  schema := schema
  shape := Sizing.identity
  module := some ("nn." ++ kind)

def relu : Layer := passthrough "ReLU" "ReLU activation" "Activation" []

def leakyRelu : Layer := passthrough "LeakyReLU" "Leaky ReLU activation" "Activation" [
  ("negative_slope",
    { label := "Negative Slope", type := .number, default := .float (hundredth 1)
      min := some (.ofInt 0), step := some (hundredth 1) })]

def sigmoid : Layer := passthrough "Sigmoid" "Sigmoid activation" "Activation" []

def tanh : Layer := passthrough "Tanh" "Tanh activation" "Activation" []

def batchNorm (kind description : String) (ranks : List Nat) : Layer where
  kind := kind
  description := description
  category := "Normalization"
  schema := [("num_features", requiredSize "Num Features" 64)]
  shape := Sizing.batchNorm kind ranks
  check := some (Checking.batchNorm kind)
  module := some ("nn." ++ kind)
  count := some Counting.batchNorm

def batchNorm1d : Layer := batchNorm "BatchNorm1d" "1D BatchNorm" [2, 3]

def batchNorm2d : Layer := batchNorm "BatchNorm2d" "2D BatchNorm" [4]

def dropout : Layer := passthrough "Dropout" "Dropout layer" "Regularization" [
  ("p",
    { label := "Dropout P", type := .number, default := .float (hundredth 50)
      min := some (.ofInt 0), max := some one, step := some (hundredth 5) })]

def flatten : Layer where
  kind := "Flatten"
  description := "Flatten tensor"
  category := "Utility"
  schema := [("start_dim", axisParam "Start Dim" 1), ("end_dim", axisParam "End Dim" (-1))]
  shape := Sizing.flatten
  module := some "nn.Flatten"

def convolution : Layer where
  kind := "Conv2d"
  description := "2D Convolution"
  category := "Convolution"
  schema := [
    ("in_channels", requiredSize "In Channels" 3),
    ("out_channels", requiredSize "Out Channels" 64),
    ("kernel_size", spatialSize "Kernel Size" 3),
    ("stride", sizeParam "Stride" 1 1),
    ("padding", sizeParam "Padding" 0 0),
    ("dilation", sizeParam "Dilation" 1 1),
    ("bias", flagParam "Bias" true)]
  shape := Sizing.convolution
  check := some Checking.convolution
  module := some "nn.Conv2d"
  count := some Counting.convolution

def pool (kind description : String) : Layer where
  kind := kind
  description := description
  category := "Pooling"
  schema := [
    ("kernel_size", spatialSize "Kernel" 2),
    ("stride", { sizeParam "Stride" 2 1 with help := some "Defaults to the kernel" }),
    ("padding", sizeParam "Padding" 0 0)]
  shape := Sizing.pool kind
  module := some ("nn." ++ kind)

def maxPool : Layer := pool "MaxPool2d" "2D Max pooling"

def avgPool : Layer := pool "AvgPool2d" "2D Average pooling"

def adaptivePool : Layer where
  kind := "AdaptiveAvgPool2d"
  description := "Adaptive Avg Pool"
  category := "Pooling"
  schema := [("output_size", spatialSize "Output Size" 1)]
  shape := Sizing.adaptivePool
  module := some "nn.AdaptiveAvgPool2d"

def add : Layer where
  kind := "Add"
  description := "Element-wise add"
  category := "Graph"
  schema := []
  shape := Sizing.identity
  minInputs := 2
  maxInputs := some 8
  check := some Checking.add

def concat : Layer where
  kind := "Concat"
  description := "Concatenate tensors"
  category := "Graph"
  schema := [("dim", axisParam "Concat Dim" 1)]
  shape := Sizing.concat
  minInputs := 2
  maxInputs := some 8
  check := some Checking.concat

def residual : Layer where
  kind := "ResidualBlock"
  description := "Conv-BN-ReLU x2 residual block"
  category := "Composite"
  schema := [
    ("in_channels", sizeParam "In Channels" 64 1),
    ("out_channels", sizeParam "Out Channels" 64 1),
    ("stride", sizeParam "Stride" 1 1),
    ("use_projection",
      { flagParam "Projection" false with help := some "Use 1x1 conv shortcut" })]
  shape := Sizing.residual
  check := some Checking.residual
  module := some "ResidualBlock"
  count := some Counting.residual

def embedding : Layer where
  kind := "Embeddings"
  description := "nn.Embedding layer"
  category := "Sequence"
  schema := [
    ("num_embeddings", sizeParam "Vocab Size" 1000 1),
    ("embedding_dim", sizeParam "Embedding Dim" 128 1)]
  shape := Sizing.embedding
  module := some "nn.Embedding"
  count := some Counting.embedding

def recurrent (kind : String) (gates : Int) : Layer where
  kind := kind
  description := kind ++ " block"
  category := "Sequence"
  schema := [
    ("input_size", requiredSize "Input Size" 128),
    ("hidden_size", requiredSize "Hidden Size" 256),
    ("num_layers", sizeParam "Layers" 1 1),
    ("bidirectional", flagParam "Bidirectional" false),
    ("batch_first", flagParam "Batch First" true),
    ("dropout",
      { label := "Dropout", type := .number, default := .float (.ofInt 0)
        min := some (.ofInt 0), max := some one, step := some (hundredth 10) })]
  shape := Sizing.recurrent kind
  check := some (Checking.recurrent kind)
  module := some ("nn." ++ kind)
  count := some (Counting.recurrent gates)
  stateful := true

def lstm : Layer := recurrent "LSTM" 4

def gru : Layer := recurrent "GRU" 3

end Layer

namespace Catalogue

def standard : Catalogue := [
  Layer.input,
  Layer.output,
  Layer.linear,
  Layer.relu,
  Layer.leakyRelu,
  Layer.sigmoid,
  Layer.tanh,
  Layer.batchNorm1d,
  Layer.batchNorm2d,
  Layer.dropout,
  Layer.flatten,
  Layer.convolution,
  Layer.maxPool,
  Layer.avgPool,
  Layer.adaptivePool,
  Layer.add,
  Layer.concat,
  Layer.residual,
  Layer.embedding,
  Layer.lstm,
  Layer.gru]

end Catalogue

end LayerGraph
