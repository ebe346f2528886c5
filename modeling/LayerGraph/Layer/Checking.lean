import LayerGraph.Layer.Basic
set_option autoImplicit false

namespace LayerGraph.Layer.Checking

def agree (finding : Int → Int → Finding) (expected received : Int) :
    Except Fault (List Finding) :=
  if Shape.mismatch received expected then (finding expected received).report else .ok []

def onFeatures (key : String) (finding : Int → Int → Finding) : CheckRule
  | [], _ => .ok []
  | shape :: _, params =>
    match shape.getLast? with
    | none => .ok []
    | some features => do agree finding (← (params.get key).toInt) features

def linear : CheckRule := onFeatures "in_features" .inFeatures

def recurrent (kind : String) : CheckRule := onFeatures "input_size" (.inputSize kind)

def convolution : CheckRule
  | [_, channels, _, _] :: _, params => do
    agree .inChannels (← (params.get "in_channels").toInt) channels
  | _, _ => .ok []

def batchNorm (kind : String) : CheckRule
  | (_ :: features :: _) :: _, params => do
    agree (.numFeatures kind) (← (params.get "num_features").toInt) features
  | _, _ => .ok []

/-- The positions, counted from a number, of the shapes that differ from a reference. -/
def unequal (reference : Shape) : Nat → List Shape → List Finding
  | _, [] => []
  | n, shape :: more =>
    if shape = reference then unequal reference (n + 1) more
    else .unequalInput n :: unequal reference (n + 1) more

def add : CheckRule
  | [], _ => .ok []
  | reference :: more, _ => .ok (unequal reference 1 (reference :: more))

def concatSizes (n : Nat) (skip : Int) : Nat → Shape → Shape → List Finding
  | axis, size :: sizes, expected :: more =>
    (if (axis : Int) ≠ skip ∧ Shape.mismatch size expected then [.concatSize n axis] else [])
      ++ concatSizes n skip (axis + 1) sizes more
  | _, _, _ => []

def concatInputs (reference : Shape) (skip : Int) : Nat → List Shape → List Finding
  | _, [] => []
  | n, shape :: more =>
    (if shape.length ≠ reference.length then [.concatRank n shape.length reference.length] else [])
      ++ concatSizes n skip 0 shape reference ++ concatInputs reference skip (n + 1) more

def concat : CheckRule
  | (size :: sizes) :: more, params => do
    let reference := size :: sizes
    let dim ← (params.get "dim").toInt
    return concatInputs reference (Shape.wrapAxis dim reference.length) 2 more
  | _, _ => .ok []

/-- A residual block changes the shape if its stride or its number of channels is not kept. -/
def blockChanges (params : Fields) (channels : Int) : Except Fault Bool := do
  let stride ← (params.get "stride").toInt
  if stride ≠ 1 then return true
  else return channels != (← (params.get "out_channels").toInt)

/-- The identity shortcut of a residual block fits only if the block keeps the shape. -/
def residual : CheckRule
  | (_ :: channels :: _) :: _, params => do
    let expected ← (params.get "in_channels").toInt
    let findings ← agree .blockChannels expected channels
    let changes ← blockChanges params expected
    return findings
      ++ if changes && !(params.get "use_projection").truthy then [.blockShortcut] else []
  | _, _ => .ok []

end LayerGraph.Layer.Checking
