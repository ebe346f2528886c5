import LayerGraph.Layer.Basic
set_option autoImplicit false

namespace LayerGraph.Layer.Counting

def biases (params : Fields) (outputs : Int) : Int :=
  if (params.get "bias").truthy then outputs else 0

def linear : CountRule := fun params => do
  let outputs ← (params.get "out_features").toInt
  let inputs ← (params.get "in_features").toInt
  return inputs * outputs + biases params outputs

def convolution : CountRule := fun params => do
  let (height, width) ← (params.get "kernel_size").toPair 3
  let outputs ← (params.get "out_channels").toInt
  let inputs ← (params.get "in_channels").toInt
  return outputs * inputs * height * width + biases params outputs

def batchNorm : CountRule := fun params => do
  return 2 * (← (params.get "num_features").toInt)

def embedding : CountRule := fun params => do
  let entries ← (params.get "num_embeddings").toInt
  let width ← (params.get "embedding_dim").toInt
  return entries * width

/-- One direction of one recurrent layer: for every gate a matrix on the input, one on the state
and two biases. -/
def recurrentCell (gates hidden inputs : Int) : Int :=
  gates * hidden * (inputs + hidden) + 2 * gates * hidden

/-- Counts the layers of a recurrent module one after the other. The first one reads inputs of the
given width, and each later one all directions of the one before. -/
def addLayers (gates hidden directions : Int) : Nat → Int → Int → Int
  | 0, _, total => total
  | layers + 1, inputs, total =>
    addLayers gates hidden directions layers (hidden * directions)
      (total + recurrentCell gates hidden inputs * directions)

def recurrent (gates : Int) : CountRule := fun params => do
  let hidden ← (params.get "hidden_size").toInt
  let directions : Int := if (params.get "bidirectional").truthy then 2 else 1
  let inputs ← (params.get "input_size").toInt
  let layers ← (params.get "num_layers").toInt
  return addLayers gates hidden directions layers.toNat inputs 0

/-- Two convolutions of size three and two normalizations, and with a projection one more of each,
the convolution of size one. -/
def residual : CountRule := fun params => do
  let inputs ← (params.get "in_channels").toInt
  let outputs ← (params.get "out_channels").toInt
  let body := outputs * inputs * 9 + outputs * outputs * 9 + 4 * outputs
  return body + if (params.get "use_projection").truthy then outputs * inputs + 2 * outputs else 0

end LayerGraph.Layer.Counting
