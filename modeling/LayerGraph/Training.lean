import LayerGraph.Number.Binary64
set_option autoImplicit false

namespace LayerGraph

inductive Task where
  | classification | regression
  deriving DecidableEq, Repr

def Task.name : Task → String
  | .classification => "classification"
  | .regression => "regression"

def Task.all : List Task := [.classification, .regression]

inductive Loss where
  | crossEntropy | meanSquare | binaryCrossEntropy
  deriving DecidableEq, Repr

def Loss.name : Loss → String
  | .crossEntropy => "CrossEntropyLoss"
  | .meanSquare => "MSELoss"
  | .binaryCrossEntropy => "BCEWithLogitsLoss"

def Loss.all : List Loss := [.crossEntropy, .meanSquare, .binaryCrossEntropy]

inductive Optimizer where
  | adam | sgd | adamW
  deriving DecidableEq, Repr

def Optimizer.name : Optimizer → String
  | .adam => "Adam"
  | .sgd => "SGD"
  | .adamW => "AdamW"

def Optimizer.all : List Optimizer := [.adam, .sgd, .adamW]

inductive Device where
  | auto | cpu | cuda
  deriving DecidableEq, Repr

def Device.name : Device → String
  | .auto => "auto"
  | .cpu => "cpu"
  | .cuda => "cuda"

def Device.all : List Device := [.auto, .cpu, .cuda]

structure Training where
  task : Task := .classification
  classes : Option Int := some 10
  loss : Loss := .crossEntropy
  optimizer : Optimizer := .adam
  learningRate : Binary64 := .ofDecimal false 1 (-3)
  batchSize : Int := 32
  epochs : Int := 10
  mixedPrecision : Bool := false
  device : Device := .auto
  deriving DecidableEq, Repr

end LayerGraph
