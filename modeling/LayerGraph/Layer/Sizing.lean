import LayerGraph.Layer.Basic
set_option autoImplicit false

namespace LayerGraph.Layer.Sizing

def imageLayout : Option String := some "[B,C,H,W]"

def onFirst (rule : Shape → Fields → Except Fault Shape) : ShapeRule
  | [], _ => .ok none
  | shape :: _, params => (rule shape params).map some

def input : ShapeRule := fun _ params =>
  match params.get "shape" with
  | .list (size :: sizes) => ((size :: sizes).mapM Value.toInt).map some
  | _ => .ok none

def identity : ShapeRule := onFirst fun shape _ => .ok shape

def linear : ShapeRule := onFirst fun shape params =>
  if shape.length < 2 then (ShapeFault.noFeatureAxis shape).raise
  else do return shape.dropLast ++ [← (params.get "out_features").toInt]

def flatten : ShapeRule := onFirst fun shape params => do
  let start ← (params.get "start_dim").toInt
  let stop ← (params.get "end_dim").toInt
  shape.flatten start stop

def onImages (kind : String) (rule : Int → Int → Int → Int → Fields → Except Fault Shape) :
    ShapeRule := onFirst fun shape params =>
  match shape with
  | [batch, channels, height, width] => rule batch channels height width params
  | _ => (ShapeFault.rank kind [4] imageLayout shape).raise

def convolution : ShapeRule := onImages "Conv2d" fun batch _ height width params => do
  let kernel ← (params.get "kernel_size").toPair 3
  let stride ← (params.get "stride").toPair 1
  let padding ← (params.get "padding").toPair 0
  let dilation ← (params.get "dilation").toPair 1
  let (h, w) ← Shape.Window.slide "Conv2d" height width ⟨kernel, stride, padding, dilation⟩
  let channels ← (params.get "out_channels").toInt
  return [batch, channels, h, w]

/-- The stride of a pooling window is that of its kernel unless it is given. -/
def poolStride (stride : Value) (kernel : Int × Int) : Except Fault (Int × Int) :=
  match stride with
  | .null => .ok kernel
  | stride => stride.toPair kernel.1

def pool (kind : String) : ShapeRule := onImages kind fun batch channels height width params => do
  let kernel ← (params.get "kernel_size").toPair 2
  let stride ← poolStride (params.get "stride") kernel
  let padding ← (params.get "padding").toPair 0
  let (h, w) ← Shape.Window.slide kind height width { kernel, stride, padding }
  return [batch, channels, h, w]

def adaptivePool : ShapeRule := onImages "AdaptiveAvgPool2d" fun batch channels _ _ params => do
  let (h, w) ← (params.get "output_size").toPair 1
  return [batch, channels, h, w]

def batchNorm (kind : String) (ranks : List Nat) : ShapeRule := onFirst fun shape _ => do
  Shape.requireRank kind shape ranks none
  return shape

/-- Sizes along the axis of concatenation add up; inputs that lack the axis do not count. -/
def concat : ShapeRule
  | [], _ => .ok none
  | first :: more, params => do
    let dim ← (params.get "dim").toInt
    let axis := Shape.wrapAxis dim first.length
    if 0 ≤ axis ∧ axis < first.length then
      let sizes := (first :: more).filterMap fun (shape : Shape) => shape[axis.toNat]?
      let size := if sizes.any (· < 0) then -1 else sizes.foldr (· + ·) 0
      return some (first.set axis.toNat size)
    else (ShapeFault.concatAxis dim first.length).raise

/-- The window of the first convolution of a residual block, which alone changes the size. -/
def blockWindow (stride : Int) : Shape.Window :=
  { kernel := (3, 3), stride := (stride, stride), padding := (1, 1) }

def residual : ShapeRule := onImages "ResidualBlock" fun batch _ height width params => do
  let stride ← (params.get "stride").toInt
  let (h, w) ← (blockWindow stride).slide "ResidualBlock" height width
  let channels ← (params.get "out_channels").toInt
  return [batch, channels, h, w]

def embedding : ShapeRule := onFirst fun shape params => do
  return shape ++ [← (params.get "embedding_dim").toInt]

/-- The leading axes stay, whichever of them is the batch; the feature axis is replaced. -/
def recurrent (kind : String) : ShapeRule := onFirst fun shape params => do
  let layout := if (params.get "batch_first").truthy then "[B,T,F]" else "[T,B,F]"
  Shape.requireRank kind shape [2, 3] (some layout)
  let hidden ← (params.get "hidden_size").toInt
  let directions := if (params.get "bidirectional").truthy then 2 else 1
  return shape.dropLast ++ [hidden * directions]

end LayerGraph.Layer.Sizing
