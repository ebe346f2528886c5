import LayerGraph.Proofs.Layer.Convolution
import LayerGraph.Proofs.Layer.Tensors
import LayerGraph.Proofs.Program.Arguments
set_option autoImplicit false

/-!
The class of the residual block adds the output of two convolutions to a shortcut, which is its
input or a convolution of it. Its layers are sized by the rules of the standard layers that have the
same modules. Where the check of the block finds nothing, no layer refuses its input, and both
branches have the shape that is inferred for the block.
-/

namespace LayerGraph

/-- What the module of a layer makes of a shape. It refuses what the check of the layer objects
to. -/
def Layer.output? (layer : Layer) (args : Fields) (shape : Shape) : Option Shape :=
  let params := layer.resolve args
  if layer.check.all fun check => (check [shape] params).toOption == some [] then
    (layer.shape [shape] params).toOption.join
  else none

theorem Layer.output?_eq_some {layer : Layer} {args : Fields} {shape out : Shape}
    (hcheck : ∀ check, layer.check = some check → check [shape] (layer.resolve args) = .ok [])
    (hshape : layer.shape [shape] (layer.resolve args) = .ok (some out)) :
    layer.output? args shape = some out := by
  have haccepted : (layer.check.all fun check =>
      (check [shape] (layer.resolve args)).toOption == some []) = true := by
    cases hrule : layer.check with
    | none => rfl
    | some check =>
      rw [Option.all_some, hcheck check hrule]
      rfl
  simp only [output?, haccepted, if_true, hshape]
  rfl

namespace Block

open Tensors

/-- The arguments that a part of the class has in a block with some arguments. -/
def bound (args : Fields) (part : Part) : Fields :=
  part.arguments.map fun argument => argument.bind args

def layer? (part : Part) : Option Layer :=
  List.find? (fun (layer : Layer) => layer.module == some part.module) Catalogue.standard

def output? (args : Fields) (part : Part) (shape : Shape) : Option Shape := do
  (← layer? part).output? (bound args part) shape

theorem output?_eq {args : Fields} {part : Part} {layer : Layer} (h : layer? part = some layer)
    (shape : Shape) : output? args part shape = layer.output? (bound args part) shape := by
  rw [output?, h]
  rfl

def activation : Part where
  name := some "relu"
  module := "nn.ReLU"
  arguments := [.fixed "inplace" (.bool true)]

def body : List Part :=
  [first, normalization (some "bn1"), activation, second, normalization (some "bn2")]

def projection : List Part := [shortcut, normalization none]

def member? (args : Fields) (name : String) : Option (List Part) :=
  if name = "proj" then some (if (args.get "use_projection").truthy then projection else [])
  else (body.find? (·.name == some name)).map ([·])

inductive Expr where
  | name (x : String)
  | call (member : String) (argument : Expr)
  | sum (left right : Expr)

namespace Expr

def text : Expr → String
  | .name x => x
  | .call member argument => "self." ++ member ++ "(" ++ argument.text ++ ")"
  | .sum left right => left.text ++ " + " ++ right.text

/-- The shape of the value, if no layer refuses its input and only equal shapes are added. -/
def shape? (args : Fields) (shapes : Table Shape) : Expr → Option Shape
  | .name x => shapes.get? x
  | .call member argument => do
    let parts ← member? args member
    parts.foldlM (fun shape part => output? args part shape) (← argument.shape? args shapes)
  | .sum left right => do
    let shape ← left.shape? args shapes
    let other ← right.shape? args shapes
    if shape = other then some shape else none

end Expr

def assignments : List (String × Expr) := [
  ("identity", .call "proj" (.name "x")),
  ("out", .call "relu" (.call "bn1" (.call "conv1" (.name "x")))),
  ("out", .call "bn2" (.call "conv2" (.name "out")))]

def result : Expr := .call "relu" (.sum (.name "out") (.name "identity"))

/-- The class that is made of these layers, assignments and result. -/
def classLines : List String :=
  ["class ResidualBlock(nn.Module):",
    "    def __init__(self, in_channels, out_channels, stride=1, use_projection=False):",
    "        super().__init__()"]
  ++ body.map (·.line)
  ++ ["        self.use_projection = use_projection", "        if use_projection:",
    "            self.proj = nn.Sequential("]
  ++ projection.map (·.line)
  ++ ["            )", "        else:", "            self.proj = nn.Identity()", "",
    "    def forward(self, x):"]
  ++ assignments.map (fun (x, value) => Text.indentLine 2 (x ++ " = " ++ value.text))
  ++ [Text.indentLine 2 ("return " ++ result.text)]

theorem residualLines_eq : Program.residualLines = classLines := by decide +kernel

def run (args : Fields) : List (String × Expr) → Table Shape → Option (Table Shape)
  | [], shapes => some shapes
  | (x, value) :: rest, shapes => do
    run args rest (shapes.put x (← value.shape? args shapes))

def square (size step padding : Int) : Shape.Window where
  kernel := (size, size)
  stride := (step, step)
  padding := (padding, padding)

def stepped (step size : Int) : Int := (size - 1) / step + 1

theorem stepped_pos {step size : Int} (hstep : 1 ≤ step) (hsize : 1 ≤ size) :
    1 ≤ stepped step size := by
  have hquotient : 0 ≤ (size - 1) / step := Int.ediv_nonneg (by omega) (by omega)
  rw [stepped]
  omega

theorem stepped_one (size : Int) : stepped 1 size = size := by
  rw [stepped, Int.ediv_one]
  omega

/-- One row of padding makes up for the rows that a window of three by three has around its
middle. -/
theorem sizes_square_three (step height width : Int) :
    (square 3 step 1).sizes height width = (stepped step height, stepped step width) := by
  simp only [Shape.Window.sizes, square, stepped]
  congr 3 <;> omega

theorem sizes_square_one (step height width : Int) :
    (square 1 step 0).sizes height width = (stepped step height, stepped step width) := by
  simp only [Shape.Window.sizes, square, stepped]
  congr 3 <;> omega

theorem agree_self (finding : Int → Int → Finding) (n : Int) :
    Layer.Checking.agree finding n n = .ok [] := by
  simp [Layer.Checking.agree, Shape.mismatch]

theorem convolution_output? (args : Fields) (size step padding : Int) {inputs outputs : Int}
    (hinputs : Fields.get (Layer.convolution.resolve args) "in_channels" = .int inputs)
    (houtputs : Fields.get (Layer.convolution.resolve args) "out_channels" = .int outputs)
    (hkernel : Fields.get (Layer.convolution.resolve args) "kernel_size" = .int size)
    (hstride : Fields.get (Layer.convolution.resolve args) "stride" = .int step)
    (hpadding : Fields.get (Layer.convolution.resolve args) "padding" = .int padding)
    (hdilation : Fields.get (Layer.convolution.resolve args) "dilation" = .int 1)
    (hstep : 1 ≤ step) (batch : Int) {height width n m : Int} (hheight : 1 ≤ height)
    (hwidth : 1 ≤ width) (hsizes : (square size step padding).sizes height width = (n, m))
    (hn : 1 ≤ n) (hm : 1 ≤ m) :
    Layer.convolution.output? args [batch, inputs, height, width] =
      some [batch, outputs, n, m] := by
  have hgives : Layer.Sizing.Gives (Layer.convolution.resolve args) (square size step padding) :=
    ⟨by rw [hkernel]; rfl, by rw [hstride]; rfl, by rw [hpadding]; rfl, by rw [hdilation]; rfl⟩
  refine Layer.output?_eq_some (fun check hcheck => ?_) ?_
  · obtain rfl : Layer.Checking.convolution = check := Option.some.inj hcheck
    simp only [Layer.Checking.convolution, hinputs, Value.toInt, bind, Except.bind, agree_self]
  · refine (Layer.Sizing.convolution_eq_ok hgives ⟨hstep, hstep⟩ batch inputs (by omega)
      (by omega)).2 ?_
    rw [hsizes]
    exact ⟨⟨hn, hm⟩, outputs, by rw [houtputs]; rfl, rfl⟩

theorem batchNorm_output? (args : Fields) {features : Int}
    (hfeatures : Fields.get (Layer.batchNorm2d.resolve args) "num_features" = .int features)
    (batch height width : Int) :
    Layer.batchNorm2d.output? args [batch, features, height, width] =
      some [batch, features, height, width] := by
  refine Layer.output?_eq_some (fun check hcheck => ?_) rfl
  obtain rfl : Layer.Checking.batchNorm "BatchNorm2d" = check := Option.some.inj hcheck
  simp only [Layer.Checking.batchNorm, hfeatures, Value.toInt, bind, Except.bind, agree_self]

theorem output?_activation (args : Fields) (shape : Shape) :
    output? args activation shape = some shape :=
  rfl

structure Given (params : Fields) (inputs outputs stride : Int) (projected : Bool) : Prop where
  inputs : params.get "in_channels" = .int inputs
  outputs : params.get "out_channels" = .int outputs
  stride : params.get "stride" = .int stride
  projected : params.get "use_projection" = .bool projected

namespace Given

variable {params args : Fields} {inputs outputs stride : Int} {projected : Bool}

theorem renders (h : Given params inputs outputs stride projected)
    (hargs : Layer.residual.schema.Renders params args) :
    Given args inputs outputs stride projected := by
  refine ⟨?_, ?_, ?_, ?_⟩
  · rw [hargs "in_channels" _ rfl, h.inputs]
    rfl
  · rw [hargs "out_channels" _ rfl, h.outputs]
    rfl
  · rw [hargs "stride" _ rfl, h.stride]
    rfl
  · rw [hargs.get_eq "use_projection" rfl rfl, h.projected]

variable (h : Given args inputs outputs stride projected) (batch : Int) {height width : Int}

include h

theorem output?_first (hstride : 1 ≤ stride) (hheight : 1 ≤ height) (hwidth : 1 ≤ width) :
    output? args first [batch, inputs, height, width] =
      some [batch, outputs, stepped stride height, stepped stride width] := by
  have hlayer : layer? first = some Layer.convolution := rfl
  rw [output?_eq hlayer]
  exact convolution_output? (bound args first) 3 stride 1 h.inputs h.outputs rfl h.stride rfl rfl
    hstride batch hheight hwidth (sizes_square_three stride height width)
    (stepped_pos hstride hheight) (stepped_pos hstride hwidth)

theorem output?_second (hheight : 1 ≤ height) (hwidth : 1 ≤ width) :
    output? args second [batch, outputs, height, width] = some [batch, outputs, height, width] := by
  have hlayer : layer? second = some Layer.convolution := rfl
  have hsizes : (square 3 1 1).sizes height width = (height, width) := by
    rw [sizes_square_three, stepped_one, stepped_one]
  rw [output?_eq hlayer]
  exact convolution_output? (bound args second) 3 1 1 h.outputs h.outputs rfl rfl rfl rfl
    (Int.le_refl 1) batch hheight hwidth hsizes hheight hwidth

theorem output?_shortcut (hstride : 1 ≤ stride) (hheight : 1 ≤ height) (hwidth : 1 ≤ width) :
    output? args shortcut [batch, inputs, height, width] =
      some [batch, outputs, stepped stride height, stepped stride width] := by
  have hlayer : layer? shortcut = some Layer.convolution := rfl
  rw [output?_eq hlayer]
  exact convolution_output? (bound args shortcut) 1 stride 0 h.inputs h.outputs rfl h.stride rfl rfl
    hstride batch hheight hwidth (sizes_square_one stride height width)
    (stepped_pos hstride hheight) (stepped_pos hstride hwidth)

theorem output?_normalization (name : Option String) :
    output? args (normalization name) [batch, outputs, height, width] =
      some [batch, outputs, height, width] := by
  have hlayer : layer? (normalization name) = some Layer.batchNorm2d := rfl
  rw [output?_eq hlayer]
  exact batchNorm_output? (bound args (normalization name)) h.outputs batch height width

end Given

section

variable {args : Fields} {shapes : Table Shape} {member : String} {argument : Expr} {shape : Shape}

theorem shape?_call {parts : List Part} (hmember : member? args member = some parts)
    (hargument : argument.shape? args shapes = some shape) :
    (Expr.call member argument).shape? args shapes =
      parts.foldlM (fun shape part => output? args part shape) shape := by
  rw [Expr.shape?, hmember, hargument]
  rfl

theorem shape?_layer {part : Part} {out : Shape} (hmember : member? args member = some [part])
    (hargument : argument.shape? args shapes = some shape)
    (hout : output? args part shape = some out) :
    (Expr.call member argument).shape? args shapes = some out := by
  rw [shape?_call hmember hargument, List.foldlM_cons, hout]
  rfl

theorem shape?_sum {left right : Expr} (hleft : left.shape? args shapes = some shape)
    (hright : right.shape? args shapes = some shape) :
    (Expr.sum left right).shape? args shapes = some shape := by
  rw [Expr.shape?, hleft, hright]
  exact if_pos rfl

theorem run_cons {x : String} {value : Expr} {rest : List (String × Expr)} {out : Shape}
    (hvalue : value.shape? args shapes = some out) :
    run args ((x, value) :: rest) shapes = run args rest (shapes.put x out) := by
  rw [run, hvalue]
  rfl

end

namespace Given

variable {args : Fields} {inputs outputs stride : Int} {projected : Bool}
  (h : Given args inputs outputs stride projected) (batch : Int) {height width : Int}

include h

/-- A block without a finding has a projection, or keeps the number of channels and takes steps of
one. -/
theorem projected_or_keeps
    (hcheck : Layer.Checking.residual [[batch, inputs, height, width]] args = .ok []) :
    projected = true ∨ stride = 1 ∧ inputs = outputs := by
  by_contra hnone
  obtain ⟨hprojected, hkept⟩ := not_or.1 hnone
  have hflag : projected = false := by simpa using hprojected
  have hchanges : Layer.Checking.blockChanges args inputs = .ok true := by
    simp only [Layer.Checking.blockChanges, h.stride, h.outputs, Value.toInt, bind, Except.bind,
      pure, Except.pure]
    by_cases hstride : stride = 1
    · rw [if_neg (not_not.2 hstride), bne_iff_ne.2 fun heq => hkept ⟨hstride, heq⟩]
    · rw [if_pos hstride]
  simp only [Layer.Checking.residual, h.inputs, Value.toInt, bind, Except.bind, agree_self,
    hchanges, h.projected, hflag, Value.truthy, pure, Except.pure, Except.ok.injEq] at hcheck
  cases hcheck

theorem shape_residual (hstride : 1 ≤ stride) (hheight : 1 ≤ height) (hwidth : 1 ≤ width) :
    Layer.residual.shape [[batch, inputs, height, width]] args =
      .ok (some [batch, outputs, stepped stride height, stepped stride width]) := by
  have hslide : (Layer.Sizing.blockWindow stride).slide "ResidualBlock" height width =
      .ok (stepped stride height, stepped stride width) :=
    (Shape.Window.slide_of_known ⟨hstride, hstride⟩ (by omega) (by omega)).2
      ⟨(sizes_square_three stride height width).symm, stepped_pos hstride hheight,
        stepped_pos hstride hwidth⟩
  have hshape : Layer.residual.shape = Layer.Sizing.residual := rfl
  simp only [hshape, Layer.Sizing.residual, Layer.Sizing.onImages, Layer.Sizing.onFirst, h.stride,
    h.outputs, Value.toInt, bind, Except.bind, hslide]
  rfl

/-- The shortcut of a block that changes the shape is a convolution, and otherwise it does
nothing. -/
theorem shape_shortcut (hstride : 1 ≤ stride) (hheight : 1 ≤ height) (hwidth : 1 ≤ width)
    (hkept : projected = true ∨ stride = 1 ∧ inputs = outputs) {shapes : Table Shape}
    (hx : shapes.get? "x" = some [batch, inputs, height, width]) :
    (Expr.call "proj" (.name "x")).shape? args shapes =
      some [batch, outputs, stepped stride height, stepped stride width] := by
  have hmember : member? args "proj" = some (if projected then projection else []) := by
    rw [member?, if_pos rfl, h.projected]
    rfl
  have hargument : (Expr.name "x").shape? args shapes = some [batch, inputs, height, width] := hx
  rw [shape?_call hmember hargument]
  cases projected with
  | true =>
    rw [if_pos rfl, projection, List.foldlM_cons, h.output?_shortcut batch hstride hheight hwidth]
    exact (congrArg (· >>= _) (h.output?_normalization batch none)).trans rfl
  | false =>
    obtain ⟨rfl, rfl⟩ := hkept.resolve_left Bool.false_ne_true
    rw [stepped_one, stepped_one]
    rfl

theorem shape_main (hstride : 1 ≤ stride) (hheight : 1 ≤ height) (hwidth : 1 ≤ width)
    {shapes : Table Shape} (hx : shapes.get? "x" = some [batch, inputs, height, width]) :
    (Expr.call "relu" (.call "bn1" (.call "conv1" (.name "x")))).shape? args shapes =
      some [batch, outputs, stepped stride height, stepped stride width] :=
  shape?_layer rfl (shape?_layer rfl (shape?_layer rfl hx
    (h.output?_first batch hstride hheight hwidth)) (h.output?_normalization batch _))
    (output?_activation args _)

theorem shape_second (hheight : 1 ≤ height) (hwidth : 1 ≤ width) {shapes : Table Shape}
    (hout : shapes.get? "out" = some [batch, outputs, height, width]) :
    (Expr.call "bn2" (.call "conv2" (.name "out"))).shape? args shapes =
      some [batch, outputs, height, width] :=
  shape?_layer rfl (shape?_layer rfl hout (h.output?_second batch hheight hwidth))
    (h.output?_normalization batch _)

end Given

/-- Programs declare the class of these layers and assignments. Where the check of a block finds
nothing in its input, the block has a shape, and the class that is called with its arguments takes
the input: the shortcut and the two convolutions both have the shape of the block, and so has their
sum. -/
theorem branches_meet (node : Node) {inputs outputs stride : Int} {projected : Bool}
    (h : Given (Layer.residual.resolve node.params) inputs outputs stride projected)
    (hstride : 1 ≤ stride) (batch : Int) {height width : Int} (hheight : 1 ≤ height)
    (hwidth : 1 ≤ width)
    (hcheck : Layer.Checking.residual [[batch, inputs, height, width]]
      (Layer.residual.resolve node.params) = .ok []) :
    Program.residualLines = classLines ∧ ∃ out shapes,
      Layer.residual.shape [[batch, inputs, height, width]] (Layer.residual.resolve node.params) =
        .ok (some out) ∧
      run (Program.moduleArguments Layer.residual node) assignments
        [("x", [batch, inputs, height, width])] = some shapes ∧
      shapes.get? "identity" = some out ∧ shapes.get? "out" = some out ∧
      result.shape? (Program.moduleArguments Layer.residual node) shapes = some out := by
  have hcall := h.renders (Program.moduleArguments_renders Layer.residual node)
  have hkept := h.projected_or_keeps batch hcheck
  -- The variables as they are bound one after the other.
  let out : Shape := [batch, outputs, stepped stride height, stepped stride width]
  let started : Table Shape := [("x", [batch, inputs, height, width])]
  let shortened := started.put "identity" out
  let widened := shortened.put "out" out
  have hidentity : (Expr.call "proj" (.name "x")).shape? _ started = some out :=
    hcall.shape_shortcut batch hstride hheight hwidth hkept rfl
  have hmain : (Expr.call "relu" (.call "bn1" (.call "conv1" (.name "x")))).shape? _ shortened =
      some out :=
    hcall.shape_main batch hstride hheight hwidth rfl
  have hsecond : (Expr.call "bn2" (.call "conv2" (.name "out"))).shape? _ widened = some out :=
    hcall.shape_second batch (stepped_pos hstride hheight) (stepped_pos hstride hwidth) rfl
  refine ⟨residualLines_eq, out, widened.put "out" out,
    h.shape_residual batch hstride hheight hwidth, ?_, rfl, rfl, ?_⟩
  · rw [assignments, run_cons hidentity, run_cons hmain, run_cons hsecond]
    rfl
  · exact shape?_layer rfl (shape?_sum rfl rfl) (output?_activation _ out)

/-- A block with a projection that doubles the channels and halves the sizes. -/
def doubled : Node :=
  ⟨"block", "ResidualBlock", "", [("out_channels", .int 128), ("stride", .int 2),
    ("use_projection", .bool true)]⟩

theorem doubled_meet :
    Given (Layer.residual.resolve doubled.params) 64 128 2 true ∧
    Layer.Checking.residual [[-1, 64, 9, 1]] (Layer.residual.resolve doubled.params) = .ok [] ∧
    Program.residualLines = classLines ∧
    ∃ shapes, run (Program.moduleArguments Layer.residual doubled) assignments
        [("x", [-1, 64, 9, 1])] = some shapes ∧
      result.shape? (Program.moduleArguments Layer.residual doubled) shapes =
        some [-1, 128, 5, 1] := by
  have hgiven : Given (Layer.residual.resolve doubled.params) 64 128 2 true := ⟨rfl, rfl, rfl, rfl⟩
  have hcheck : Layer.Checking.residual [[-1, 64, 9, 1]] (Layer.residual.resolve doubled.params) =
      .ok [] := by
    rfl
  obtain ⟨hclass, out, shapes, hshape, hrun, -, -, hresult⟩ :=
    branches_meet doubled hgiven (by decide) (-1) (by decide) (by decide) hcheck
  have hout : Layer.residual.shape [[-1, 64, 9, 1]] (Layer.residual.resolve doubled.params) =
      .ok (some [-1, 128, 5, 1]) := rfl
  rw [hout] at hshape
  cases hshape
  exact ⟨hgiven, hcheck, hclass, shapes, hrun, hresult⟩

end Block

end LayerGraph
