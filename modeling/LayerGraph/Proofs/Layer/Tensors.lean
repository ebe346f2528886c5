import LayerGraph.Proofs.Layer.Whole
import LayerGraph.Program.Script
import Mathlib.Algebra.BigOperators.Group.List.Basic
import Mathlib.Data.List.Infix
set_option autoImplicit false

/-!
The tensors that a module trains, by the arguments that it is called with. The rules that count the
parameters of a layer give the number of elements of the tensors of its module; of the residual
block these are the tensors of the layers that its class declares.
-/

namespace LayerGraph

namespace Value

def size? : Value → Option Int
  | .int n => if 1 ≤ n then some n else none
  | _ => none

def sizes? : Value → Option (Int × Int)
  | .list [a, b] => do return (← a.size?, ← b.size?)
  | v => v.size?.map fun n => (n, n)

def flag? : Value → Option Bool
  | .bool b => some b
  | _ => none

end Value

namespace Tensors

/-- The shapes of the trainable tensors of a module. Without a size that they depend on there are
none to speak of. -/
abbrev Rule := Fields → Option (List Shape)

def elements (tensors : List Shape) : Int := (tensors.map List.prod).sum

def biases (given : Bool) (outputs : Int) : List Shape := if given then [[outputs]] else []

def linear : Rule := fun args => do
  let inputs ← (args.get "in_features").size?
  let outputs ← (args.get "out_features").size?
  let bias ← (args.get "bias").flag?
  return [outputs, inputs] :: biases bias outputs

def convolution : Rule := fun args => do
  let inputs ← (args.get "in_channels").size?
  let outputs ← (args.get "out_channels").size?
  let (height, width) ← (args.get "kernel_size").sizes?
  let bias ← (args.get "bias").flag?
  return [outputs, inputs, height, width] :: biases bias outputs

def batchNorm : Rule := fun args => do
  let features ← (args.get "num_features").size?
  return [[features], [features]]

def embedding : Rule := fun args => do
  let entries ← (args.get "num_embeddings").size?
  let width ← (args.get "embedding_dim").size?
  return [[entries, width]]

/-- One direction of one recurrent layer: weights on the input and on the state, and a bias for
each. -/
def cell (gates hidden inputs : Int) : List Shape :=
  [[gates * hidden, inputs], [gates * hidden, hidden], [gates * hidden], [gates * hidden]]

def stacked (gates hidden : Int) (directions : Nat) : Nat → Int → List Shape
  | 0, _ => []
  | layers + 1, inputs =>
    (List.replicate directions (cell gates hidden inputs)).flatten
      ++ stacked gates hidden directions layers (hidden * directions)

def recurrent (gates : Int) : Rule := fun args => do
  let inputs ← (args.get "input_size").size?
  let hidden ← (args.get "hidden_size").size?
  let layers ← (args.get "num_layers").size?
  let bidirectional ← (args.get "bidirectional").flag?
  return stacked gates hidden (if bidirectional then 2 else 1) layers.toNat inputs

/-- The modules with tensors of their own. -/
def trainable : Table Rule := [
  ("nn.Linear", linear),
  ("nn.Conv2d", convolution),
  ("nn.BatchNorm1d", batchNorm),
  ("nn.BatchNorm2d", batchNorm),
  ("nn.Embedding", embedding),
  ("nn.LSTM", recurrent 4),
  ("nn.GRU", recurrent 3)]

def fixed : List String := ["nn.ReLU", "nn.LeakyReLU", "nn.Sigmoid", "nn.Tanh", "nn.Dropout",
  "nn.Flatten", "nn.MaxPool2d", "nn.AvgPool2d", "nn.AdaptiveAvgPool2d"]

/-- An argument in the class of the residual block: one of its own, by position or by keyword, or a
literal. -/
inductive Argument where
  | placed (param own : String)
  | passed (param own : String)
  | fixed (param : String) (v : Value)

namespace Argument

def text : Argument → String
  | .placed _ own => own
  | .passed param own => param ++ "=" ++ own
  | .fixed param v => param ++ "=" ++ v.literal

def bind (args : Fields) : Argument → String × Value
  | .placed param own | .passed param own => (param, args.get own)
  | .fixed param v => (param, v)

end Argument

/-- A layer that the class of the residual block declares, under a name of its own or, if only a
block with a projection has it, in the sequence of the projection. -/
structure Part where
  name : Option String
  module : String
  arguments : List Argument

namespace Part

def text (part : Part) : String :=
  part.module ++ "(" ++ ", ".intercalate (part.arguments.map (·.text)) ++ ")"

def line (part : Part) : String :=
  match part.name with
  | some name => Text.indentLine 2 ("self." ++ name ++ " = " ++ part.text)
  | none => Text.indentLine 4 (part.text ++ ",")

def tensors (part : Part) : Rule := fun args => do
  let rule ← trainable.get? part.module
  rule (part.arguments.map (·.bind args))

end Part

def first : Part where
  name := some "conv1"
  module := "nn.Conv2d"
  arguments := [.placed "in_channels" "in_channels", .placed "out_channels" "out_channels",
    .fixed "kernel_size" (.int 3), .passed "stride" "stride", .fixed "padding" (.int 1),
    .fixed "bias" (.bool false)]

def second : Part where
  name := some "conv2"
  module := "nn.Conv2d"
  arguments := [.placed "in_channels" "out_channels", .placed "out_channels" "out_channels",
    .fixed "kernel_size" (.int 3), .fixed "stride" (.int 1), .fixed "padding" (.int 1),
    .fixed "bias" (.bool false)]

def shortcut : Part where
  name := none
  module := "nn.Conv2d"
  arguments := [.placed "in_channels" "in_channels", .placed "out_channels" "out_channels",
    .fixed "kernel_size" (.int 1), .passed "stride" "stride", .fixed "bias" (.bool false)]

def normalization (name : Option String) : Part where
  name := name
  module := "nn.BatchNorm2d"
  arguments := [.placed "num_features" "out_channels"]

def parts : List Part := [first, normalization (some "bn1"), second, normalization (some "bn2"),
  shortcut, normalization none]

def octets (s : String) : List UInt8 := s.toByteArray.data.toList

def callsTrainable (line : String) : Bool :=
  trainable.any fun (module, _) => decide (octets (module ++ "(") <:+: octets line)

theorem parts_lines : Program.residualLines.filter callsTrainable = parts.map (·.line) := by
  decide +kernel

def residual : Rule := fun args => do
  let projection ← (args.get "use_projection").flag?
  let tensors ← (parts.filter fun part => projection || part.name.isSome).mapM (·.tensors args)
  return tensors.flatten

/-- The modules that programs call. -/
def rules : Table Rule :=
  trainable ++ [("ResidualBlock", residual)] ++ fixed.map fun module => (module, fun _ => some [])

def sizeKeys : List String := ["in_features", "out_features", "in_channels", "out_channels",
  "num_features", "num_embeddings", "embedding_dim", "input_size", "hidden_size", "num_layers"]

def flagKeys : List String := ["bias", "bidirectional", "use_projection"]

/-- The value is a size, one or two sizes or a flag where the parameter decides on the tensors of a
module. -/
def suits (key : String) (v : Value) : Bool :=
  if sizeKeys.contains key then v.size?.isSome
  else if flagKeys.contains key then v.flag?.isSome
  else key != "kernel_size" || v.sizes?.isSome

end Tensors

namespace Value

theorem size?_eq_some {v : Value} {n : Int} (h : v.size? = some n) : v = .int n := by
  cases v with
  | int m =>
    rw [size?, Option.ite_none_right_eq_some] at h
    exact congrArg _ (Option.some.inj h.2)
  | null | bool _ | float _ | str _ | list _ | object _ => cases h

theorem le_of_size? {v : Value} {n : Int} (h : v.size? = some n) : 1 ≤ n := by
  cases v with
  | int m =>
    rw [size?, Option.ite_none_right_eq_some] at h
    exact Option.some.inj h.2 ▸ h.1
  | null | bool _ | float _ | str _ | list _ | object _ => cases h

theorem flag?_eq_some {v : Value} {b : Bool} (h : v.flag? = some b) : v = .bool b := by
  cases v with
  | bool c => exact congrArg _ (Option.some.inj h)
  | null | int _ | float _ | str _ | list _ | object _ => cases h

theorem sizes?_eq_some {v : Value} {n m : Int} (h : v.sizes? = some (n, m)) :
    v = .int n ∧ n = m ∨ v = .list [.int n, .int m] := by
  unfold sizes? at h
  split at h
  · rename_i a b
    simp only [bind, Option.bind_eq_some_iff, pure, Option.some.injEq, Prod.mk.injEq] at h
    obtain ⟨n', hn, m', hm, rfl, rfl⟩ := h
    exact .inr (by rw [size?_eq_some hn, size?_eq_some hm])
  · obtain ⟨n', hn, heq⟩ := Option.map_eq_some_iff.1 h
    obtain ⟨rfl, rfl⟩ := Prod.mk.inj heq
    exact .inl ⟨size?_eq_some hn, rfl⟩

theorem le_of_sizes? {v : Value} {n m : Int} (h : v.sizes? = some (n, m)) : 1 ≤ n ∧ 1 ≤ m := by
  unfold sizes? at h
  split at h
  · simp only [bind, Option.bind_eq_some_iff, pure, Option.some.injEq, Prod.mk.injEq] at h
    obtain ⟨n', hn, m', hm, rfl, rfl⟩ := h
    exact ⟨le_of_size? hn, le_of_size? hm⟩
  · obtain ⟨n', hn, heq⟩ := Option.map_eq_some_iff.1 h
    obtain ⟨rfl, rfl⟩ := Prod.mk.inj heq
    exact ⟨le_of_size? hn, le_of_size? hn⟩

end Value

namespace Tensors

/-- Arguments that show params of a module, of which those that decide on its tensors suit it. -/
structure Suited (schema : Schema) (params args : Fields) : Prop where
  renders : schema.Renders params args
  suits : ∀ key p, schema.get? key = some p → suits key (params.get key) = true

namespace Suited

variable {schema : Schema} {params args : Fields} {p : Param}

theorem get_eq (h : Suited schema params args) (key : String) (hp : schema.get? key = some p)
    (hwhole : (params.get key).whole = params.get key) : args.get key = params.get key := by
  rw [h.renders key p hp, Program.argumentValue]
  split
  · exact hwhole
  · rfl

theorem size (h : Suited schema params args) (key : String) (hp : schema.get? key = some p)
    (hkey : sizeKeys.contains key = true) :
    ∃ n, (params.get key).toInt = .ok n ∧ (args.get key).size? = some n := by
  have hsize := h.suits key p hp
  rw [Tensors.suits, if_pos hkey] at hsize
  obtain ⟨n, hn⟩ := Option.isSome_iff_exists.1 hsize
  have hint := Value.size?_eq_some hn
  refine ⟨n, by rw [hint]; rfl, ?_⟩
  rw [h.get_eq key hp (by rw [hint]; simp only [Value.whole])]
  exact hn

theorem flag (h : Suited schema params args) (key : String) (hp : schema.get? key = some p)
    (hsize : sizeKeys.contains key = false) (hkey : flagKeys.contains key = true) :
    ∃ b, (params.get key).truthy = b ∧ (args.get key).flag? = some b := by
  have hflag := h.suits key p hp
  rw [Tensors.suits, hsize, if_neg Bool.false_ne_true, if_pos hkey] at hflag
  obtain ⟨b, hb⟩ := Option.isSome_iff_exists.1 hflag
  have hbool := Value.flag?_eq_some hb
  refine ⟨b, by rw [hbool]; rfl, ?_⟩
  rw [h.get_eq key hp (by rw [hbool]; simp only [Value.whole])]
  exact hb

theorem kernel (h : Suited schema params args) (hp : schema.get? "kernel_size" = some p)
    (fallback : Int) :
    ∃ n m, (params.get "kernel_size").toPair fallback = .ok (n, m) ∧
      (args.get "kernel_size").sizes? = some (n, m) := by
  have hsizes : (params.get "kernel_size").sizes?.isSome = true := h.suits _ p hp
  obtain ⟨⟨n, m⟩, hnm⟩ := Option.isSome_iff_exists.1 hsizes
  rcases Value.sizes?_eq_some hnm with ⟨hint, rfl⟩ | hlist
  · refine ⟨n, n, by rw [hint]; rfl, ?_⟩
    rw [h.get_eq _ hp (by rw [hint]; simp only [Value.whole])]
    exact hnm
  · refine ⟨n, m, by rw [hlist]; rfl, ?_⟩
    rw [h.get_eq _ hp (by rw [hlist]; simp only [Value.whole, Value.wholeItems])]
    exact hnm

end Suited

/-- A rule that counts the elements of the tensors of a module. -/
def Counts (schema : Schema) (count : CountRule) (rule : Rule) : Prop :=
  ∀ params args, Suited schema params args →
    ∃ tensors, rule args = some tensors ∧ count params = .ok (elements tensors)

theorem elements_cons (tensor : Shape) (tensors : List Shape) :
    elements (tensor :: tensors) = tensor.prod + elements tensors := by
  simp [elements]

theorem elements_append (tensors more : List Shape) :
    elements (tensors ++ more) = elements tensors + elements more := by
  simp [elements]

theorem elements_flatten (groups : List (List Shape)) :
    elements groups.flatten = (groups.map elements).sum := by
  induction groups with
  | nil => rfl
  | cons group groups ih => rw [List.flatten_cons, elements_append, ih]; rfl

theorem elements_biases (given : Bool) (outputs : Int) :
    elements (biases given outputs) = if given then outputs else 0 := by
  cases given <;> simp [biases, elements]

theorem linear_counts : Counts Layer.linear.schema Layer.Counting.linear linear := by
  intro params args h
  obtain ⟨inputs, hinputs, hinputs'⟩ := h.size "in_features" rfl rfl
  obtain ⟨outputs, houtputs, houtputs'⟩ := h.size "out_features" rfl rfl
  obtain ⟨bias, hbias, hbias'⟩ := h.flag "bias" rfl rfl rfl
  refine ⟨[outputs, inputs] :: biases bias outputs, ?_, ?_⟩
  · simp only [linear, hinputs', houtputs', hbias', bind, Option.bind, pure]
  · simp only [Layer.Counting.linear, Layer.Counting.biases, hinputs, houtputs, hbias, bind,
      Except.bind, pure, Except.pure, elements_cons, elements_biases]
    simp [Int.mul_comm]

theorem convolution_counts :
    Counts Layer.convolution.schema Layer.Counting.convolution convolution := by
  intro params args h
  obtain ⟨inputs, hinputs, hinputs'⟩ := h.size "in_channels" rfl rfl
  obtain ⟨outputs, houtputs, houtputs'⟩ := h.size "out_channels" rfl rfl
  obtain ⟨height, width, hkernel, hkernel'⟩ := h.kernel rfl 3
  obtain ⟨bias, hbias, hbias'⟩ := h.flag "bias" rfl rfl rfl
  refine ⟨[outputs, inputs, height, width] :: biases bias outputs, ?_, ?_⟩
  · simp only [convolution, hinputs', houtputs', hkernel', hbias', bind, Option.bind, pure]
  · simp only [Layer.Counting.convolution, Layer.Counting.biases, hinputs, houtputs, hkernel, hbias,
      bind, Except.bind, pure, Except.pure, elements_cons, elements_biases]
    simp [Int.mul_assoc]

theorem batchNorm_counts (kind description : String) (ranks : List Nat) :
    Counts (Layer.batchNorm kind description ranks).schema Layer.Counting.batchNorm batchNorm := by
  intro params args h
  obtain ⟨features, hfeatures, hfeatures'⟩ := h.size "num_features" rfl rfl
  refine ⟨[[features], [features]], ?_, ?_⟩
  · simp only [batchNorm, hfeatures', bind, Option.bind, pure]
  · simp only [Layer.Counting.batchNorm, hfeatures, bind, Except.bind, pure, Except.pure]
    simp [elements, Int.two_mul]

theorem embedding_counts : Counts Layer.embedding.schema Layer.Counting.embedding embedding := by
  intro params args h
  obtain ⟨entries, hentries, hentries'⟩ := h.size "num_embeddings" rfl rfl
  obtain ⟨width, hwidth, hwidth'⟩ := h.size "embedding_dim" rfl rfl
  refine ⟨[[entries, width]], ?_, ?_⟩
  · simp only [embedding, hentries', hwidth', bind, Option.bind, pure]
  · simp only [Layer.Counting.embedding, hentries, hwidth, bind, Except.bind, pure, Except.pure]
    simp [elements]

theorem elements_cell (gates hidden inputs : Int) :
    elements (cell gates hidden inputs) = Layer.Counting.recurrentCell gates hidden inputs := by
  simp only [elements, cell, Layer.Counting.recurrentCell, List.map_cons, List.map_nil,
    List.prod_cons, List.prod_nil, List.sum_cons, List.sum_nil]
  ring

theorem elements_directions (gates hidden inputs : Int) (directions : Nat) :
    elements (List.replicate directions (cell gates hidden inputs)).flatten =
      directions * Layer.Counting.recurrentCell gates hidden inputs := by
  rw [elements_flatten, List.map_replicate, List.sum_replicate, elements_cell, nsmul_eq_mul]

theorem elements_later (gates hidden : Int) (directions layers : Nat) :
    elements (stacked gates hidden directions layers (hidden * directions)) =
      layers * (directions
        * Layer.Counting.recurrentCell gates hidden (hidden * directions)) := by
  induction layers with
  | zero => simp [stacked, elements]
  | succ layers ih =>
    rw [stacked, elements_append, elements_directions, ih]
    push_cast
    ring

theorem elements_stacked (gates hidden : Int) (directions layers : Nat) (inputs : Int) :
    elements (stacked gates hidden directions (layers + 1) inputs) =
      directions * Layer.Counting.recurrentCell gates hidden inputs
        + layers * (directions
          * Layer.Counting.recurrentCell gates hidden (hidden * directions)) := by
  rw [stacked, elements_append, elements_directions, elements_later]

theorem addLayers_later (gates hidden directions : Int) (layers : Nat) (total : Int) :
    Layer.Counting.addLayers gates hidden directions layers (hidden * directions) total =
      total + layers * (directions
        * Layer.Counting.recurrentCell gates hidden (hidden * directions)) := by
  induction layers generalizing total with
  | zero => simp [Layer.Counting.addLayers]
  | succ layers ih =>
    rw [Layer.Counting.addLayers, ih]
    push_cast
    ring

/-- The loop over the layers in closed form: only the first one can have a size of its own. -/
theorem addLayers_succ (gates hidden directions : Int) (layers : Nat) (inputs total : Int) :
    Layer.Counting.addLayers gates hidden directions (layers + 1) inputs total =
      total + directions * Layer.Counting.recurrentCell gates hidden inputs
        + layers * (directions
          * Layer.Counting.recurrentCell gates hidden (hidden * directions)) := by
  rw [Layer.Counting.addLayers, addLayers_later]
  ring

theorem addLayers_eq_elements (gates hidden : Int) (both : Bool) (layers : Nat) (inputs : Int) :
    Layer.Counting.addLayers gates hidden (if both then 2 else 1) layers inputs 0 =
      elements (stacked gates hidden (if both then 2 else 1) layers inputs) := by
  have hdirections : (((if both then 2 else 1 : Nat)) : Int) = if both then 2 else 1 := by
    cases both <;> rfl
  cases layers with
  | zero => rfl
  | succ layers => rw [addLayers_succ, elements_stacked, hdirections, Int.zero_add]

theorem recurrent_counts (kind : String) (gates : Int) :
    Counts (Layer.recurrent kind gates).schema (Layer.Counting.recurrent gates)
      (recurrent gates) := by
  intro params args h
  obtain ⟨inputs, hinputs, hinputs'⟩ := h.size "input_size" rfl rfl
  obtain ⟨hidden, hhidden, hhidden'⟩ := h.size "hidden_size" rfl rfl
  obtain ⟨layers, hlayers, hlayers'⟩ := h.size "num_layers" rfl rfl
  obtain ⟨both, hboth, hboth'⟩ := h.flag "bidirectional" rfl rfl rfl
  refine ⟨stacked gates hidden (if both then 2 else 1) layers.toNat inputs, ?_, ?_⟩
  · simp only [recurrent, hinputs', hhidden', hlayers', hboth', bind, Option.bind, pure]
  · simp only [Layer.Counting.recurrent, hinputs, hhidden, hlayers, hboth, bind, Except.bind, pure,
      Except.pure, addLayers_eq_elements]

/-- A square convolution without a bias. -/
theorem convolution_square {args : Fields} {inputs outputs size : Int}
    (hinputs : (args.get "in_channels").size? = some inputs)
    (houtputs : (args.get "out_channels").size? = some outputs)
    (hkernel : (args.get "kernel_size").sizes? = some (size, size))
    (hbias : args.get "bias" = .bool false) :
    convolution args = some [[outputs, inputs, size, size]] := by
  simp only [convolution, hinputs, houtputs, hkernel, hbias, bind, Option.bind, pure]
  rfl

theorem batchNorm_features {args : Fields} {features : Int}
    (h : (args.get "num_features").size? = some features) :
    batchNorm args = some [[features], [features]] := by
  simp only [batchNorm, h, bind, Option.bind, pure]

theorem residual_counts : Counts Layer.residual.schema Layer.Counting.residual residual := by
  intro params args h
  obtain ⟨inputs, hinputs, hinputs'⟩ := h.size "in_channels" rfl rfl
  obtain ⟨outputs, houtputs, houtputs'⟩ := h.size "out_channels" rfl rfl
  obtain ⟨projection, hprojection, hprojection'⟩ := h.flag "use_projection" rfl rfl rfl
  have hnorm : ∀ name, (normalization name).tensors args = some [[outputs], [outputs]] :=
    fun _ => batchNorm_features houtputs'
  have hfirst : first.tensors args = some [[outputs, inputs, 3, 3]] :=
    convolution_square hinputs' houtputs' rfl rfl
  have hsecond : second.tensors args = some [[outputs, outputs, 3, 3]] :=
    convolution_square houtputs' houtputs' rfl rfl
  have hshortcut : shortcut.tensors args = some [[outputs, inputs, 1, 1]] :=
    convolution_square hinputs' houtputs' rfl rfl
  simp only [Layer.Counting.residual, hinputs, houtputs, hprojection, bind, Except.bind, pure,
    Except.pure]
  cases projection with
  | false =>
    refine ⟨[[outputs, inputs, 3, 3], [outputs], [outputs], [outputs, outputs, 3, 3], [outputs],
      [outputs]], ?_, congrArg Except.ok ?_⟩
    · have hbody : parts.filter (fun part => false || part.name.isSome) =
          [first, normalization (some "bn1"), second, normalization (some "bn2")] := rfl
      simp only [residual, hprojection', bind, Option.bind, hbody, List.mapM_cons, List.mapM_nil,
        hfirst, hsecond, hnorm, pure]
      rfl
    · simp [elements]
      ring
  | true =>
    refine ⟨[[outputs, inputs, 3, 3], [outputs], [outputs], [outputs, outputs, 3, 3], [outputs],
      [outputs], [outputs, inputs, 1, 1], [outputs], [outputs]], ?_, congrArg Except.ok ?_⟩
    · have hall : parts.filter (fun part => true || part.name.isSome) =
          [first, normalization (some "bn1"), second, normalization (some "bn2"), shortcut,
            normalization none] := rfl
      simp only [residual, hprojection', bind, Option.bind, hall, List.mapM_cons, List.mapM_nil,
        hfirst, hsecond, hshortcut, hnorm, pure]
      rfl
    · simp [elements]
      ring

/-- A rule for the module of a layer agrees with its count; without a count there are no tensors. -/
def Covers (layer : Layer) (rule : Rule) : Prop :=
  match layer.count with
  | some count => Counts layer.schema count rule
  | none => ∀ args, rule args = some []

/-- The module of a standard layer trains as many parameters as are counted for the layer, and none
are counted where there is no module. -/
theorem standard_covers {layer : Layer} (hmem : layer ∈ Catalogue.standard) :
    match layer.module with
    | some module => ∃ rule, rules.get? module = some rule ∧ Covers layer rule
    | none => layer.count = none := by
  simp only [Catalogue.standard, List.mem_cons, List.not_mem_nil, or_false] at hmem
  rcases hmem with rfl | rfl | rfl | rfl | rfl | rfl | rfl | rfl | rfl | rfl | rfl | rfl | rfl | rfl
    | rfl | rfl | rfl | rfl | rfl | rfl | rfl
  · rfl
  · rfl
  · exact ⟨linear, rfl, linear_counts⟩
  · exact ⟨fun _ => some [], rfl, fun _ => rfl⟩
  · exact ⟨fun _ => some [], rfl, fun _ => rfl⟩
  · exact ⟨fun _ => some [], rfl, fun _ => rfl⟩
  · exact ⟨fun _ => some [], rfl, fun _ => rfl⟩
  · exact ⟨batchNorm, rfl, batchNorm_counts _ _ _⟩
  · exact ⟨batchNorm, rfl, batchNorm_counts _ _ _⟩
  · exact ⟨fun _ => some [], rfl, fun _ => rfl⟩
  · exact ⟨fun _ => some [], rfl, fun _ => rfl⟩
  · exact ⟨convolution, rfl, convolution_counts⟩
  · exact ⟨fun _ => some [], rfl, fun _ => rfl⟩
  · exact ⟨fun _ => some [], rfl, fun _ => rfl⟩
  · exact ⟨fun _ => some [], rfl, fun _ => rfl⟩
  · rfl
  · rfl
  · exact ⟨residual, rfl, residual_counts⟩
  · exact ⟨embedding, rfl, embedding_counts⟩
  · exact ⟨recurrent 4, rfl, recurrent_counts _ _⟩
  · exact ⟨recurrent 3, rfl, recurrent_counts _ _⟩

end Tensors

end LayerGraph
